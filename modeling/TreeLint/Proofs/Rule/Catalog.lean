import TreeLint.Proofs.Text.Template
import TreeLint.Rule.Catalog

/-!
# Findings of the reference rules

Two of the reference rules put the name of a variable into their texts. Their templates are well
formed, so a name always gives a finding, whatever characters it holds. A name mentions a type
exactly when the word occurs in its lower-case form. One rule inspects functions, three inspect
variables.
-/

namespace TreeLint

namespace Naming

/-- A text begins with the word `type` exactly when its lower-case form does. -/
theorem startsWithType_iff {text : List Char} :
    startsWithType text = true ↔ "type".toList <+: Text.lowerCase text := by
  change _ ↔ ['t', 'y', 'p', 'e'] <+: text.map Char.toLower
  match text with
  | [] | [_] | [_, _] | [_, _, _] => simp [startsWithType]
  | t :: y :: p :: e :: rest =>
    simp only [startsWithType, Bool.and_eq_true, beq_iff_eq, and_assoc, List.map_cons,
      List.cons_prefix_cons, List.nil_prefix, and_true]
    simp only [eq_comm]

/-- The word `type` occurs in a text exactly when it occurs in its lower-case form. -/
theorem hasType_iff {text : List Char} :
    hasType text = true ↔ "type".toList <:+: Text.lowerCase text := by
  induction text with
  | nil => simp [hasType, Text.lowerCase]
  | cons c rest ih =>
    rw [hasType, Bool.or_eq_true, startsWithType_iff, ih, Text.lowerCase, List.map_cons,
      List.infix_cons_iff]
    rfl

end Naming

/-- A finding with arguments holds the filled message and the filled suggestion. -/
theorem RuleInfo.finding_eq_ok {info : RuleInfo} {arg message : String}
    {suggestion : Option String} (hmessage : Text.fill info.message [arg] = .ok message)
    (hsuggestion : fillSuggestion [arg] info.suggestion = .ok suggestion) :
    info.finding [arg] = .ok ⟨message, suggestion⟩ := by
  unfold finding
  rw [hmessage, hsuggestion]
  rfl

namespace Catalog

/-- The reference rules inspect functions and variables. -/
theorem filter_inspects (kind : Kind) :
    rules.filter (·.inspects kind) =
      match kind with
      | .functionDeclaration => [explicitReturnType]
      | .variableDeclaration => [noExplicitAny, camelCaseNaming, preferEnum]
      | _ => [] := by
  cases kind <;> rfl

/-- The finding about a name that is not in camel case. -/
theorem finding_camelCaseNamingInfo (name : String) :
    camelCaseNamingInfo.finding [name] =
      .ok ⟨"Variables must be named in camelCase. " ++ name ++ " is invalid.", none⟩ := by
  have htemplate : camelCaseNamingInfo.message.toList =
      Text.doubleBraces "Variables must be named in camelCase. ".toList ++
        '{' :: '}' :: Text.doubleBraces " is invalid.".toList := by
    decide
  exact RuleInfo.finding_eq_ok (Text.fill_of_eq_append htemplate name) rfl

/-- The finding about a name that mentions a type. -/
theorem finding_preferEnumInfo (name : String) :
    preferEnumInfo.finding [name] =
      .ok ⟨"Use Enums to represent types, not strings",
        some ("declare an enum for the possible values of '" ++ name ++ "'")⟩ := by
  have hmessage : preferEnumInfo.message.toList =
      Text.doubleBraces "Use Enums to represent types, not strings".toList := by
    decide
  have htemplate : ("declare an enum for the possible values of '\x7b\x7d'" : String).toList =
      Text.doubleBraces "declare an enum for the possible values of '".toList ++
        '{' :: '}' :: Text.doubleBraces "'".toList := by
    decide
  apply RuleInfo.finding_eq_ok (Text.fill_of_eq_doubleBraces hmessage [name])
  simp only [preferEnumInfo, RuleInfo.fillSuggestion, Text.fill_of_eq_append htemplate name]
  rfl

end Catalog

end TreeLint
