import TreeLint.Proofs.Config.Directive
import TreeLint.Proofs.Config.Levels

/-!
# The last directive wins

The directives of a source are applied line by line. Where the rules are known, the level of a rule
is told by the last line whose directive calls the rule by its code or its name, and is the
configured one if there is no such line. A line that is marked as a directive and is malformed, or
that calls no known rule, is skipped with a warning that gives its number.
-/

namespace TreeLint

namespace Text.LineMap

variable {map : LineMap}

/-- The numbered lines of a text are its lines with their numbers, counted from one. -/
theorem mem_numberedLines_iff {line : Nat × List Char} :
    line ∈ map.numberedLines ↔
      (1 ≤ line.1 ∧ line.1 ≤ map.lineCount) ∧ map.lineChars line.1 = line.2 := by
  obtain ⟨number, text⟩ := line
  simp only [numberedLines, List.mem_map, List.mem_range, Prod.mk.injEq]
  constructor
  · intro h
    obtain ⟨index, hindex, rfl, rfl⟩ := h
    exact ⟨⟨by omega, by omega⟩, rfl⟩
  · intro h
    obtain ⟨⟨hpos, hle⟩, htext⟩ := h
    refine ⟨number - 1, by omega, by omega, ?_⟩
    rw [← htext]
    congr 1
    omega

/-- The numbers of the lines increase. -/
theorem pairwise_numberedLines (map : LineMap) :
    map.numberedLines.Pairwise fun line later => line.1 < later.1 := by
  rw [numberedLines, List.pairwise_map]
  exact List.pairwise_lt_range.imp fun h => by omega

end Text.LineMap

namespace Directive

open Text (LineMap)

/-- A text has a directive on the line with the given number. -/
def StandsAt (map : LineMap) (number : Nat) (directive : Directive) : Prop :=
  (1 ≤ number ∧ number ≤ map.lineCount) ∧ OnLine (map.lineChars number) directive

/-- The last directive of a text with an identifier of some sort. -/
def IsLast (map : LineMap) (sort : String → Prop) (directive : Directive) : Prop :=
  ∃ number, StandsAt map number directive ∧ sort directive.identifier ∧
    ∀ later other, number < later → StandsAt map later other → ¬ sort other.identifier

/-- Find the last directive of a text with an identifier of some sort. -/
def last? (map : LineMap) (sort : String → Prop) [DecidablePred sort] : Option Directive :=
  (map.numberedLines.filterMap fun line =>
    (onLine? line.2).filter fun directive => sort directive.identifier).getLast?

/-- On a line of a text, the directive with an identifier of some sort. -/
theorem filter_onLine?_eq_some_iff {map : LineMap} {sort : String → Prop} [DecidablePred sort]
    {line : Nat × List Char} (hline : line ∈ map.numberedLines) {directive : Directive} :
    ((onLine? line.2).filter fun directive => sort directive.identifier) = some directive ↔
      StandsAt map line.1 directive ∧ sort directive.identifier := by
  obtain ⟨hnumber, htext⟩ := Text.LineMap.mem_numberedLines_iff.mp hline
  rw [Option.filter_eq_some_iff, onLine?_eq_some_iff, decide_eq_true_eq, StandsAt, htext,
    and_iff_right hnumber]

/-- Every directive of a text stands on one of its numbered lines. -/
theorem StandsAt.mem_numberedLines {map : LineMap} {number : Nat} {directive : Directive}
    (h : StandsAt map number directive) :
    (number, map.lineChars number) ∈ map.numberedLines :=
  Text.LineMap.mem_numberedLines_iff.mpr ⟨h.1, rfl⟩

/-- What is found is the last directive of a text with an identifier of the sort. -/
theorem last?_eq_some_iff {map : LineMap} {sort : String → Prop} [DecidablePred sort]
    {directive : Directive} : last? map sort = some directive ↔ IsLast map sort directive := by
  have hsorted := Text.LineMap.pairwise_numberedLines map
  rw [last?, List.getLast?_filterMap, List.findSome?_eq_some_iff]
  constructor
  · intro h
    obtain ⟨after, line, before, hlines, hfound, hafter⟩ := h
    rw [List.reverse_eq_append_iff, List.reverse_cons, List.append_assoc,
      List.singleton_append] at hlines
    have hline : line ∈ map.numberedLines := by
      rw [hlines]
      exact List.mem_append_right _ List.mem_cons_self
    obtain ⟨hstands, hsort⟩ := (filter_onLine?_eq_some_iff hline).mp hfound
    refine ⟨line.1, hstands, hsort, fun later other hlater hother hsort' => ?_⟩
    -- A later line is neither the one that was found nor one of those before it.
    have hmem := hother.mem_numberedLines
    have hgives := (filter_onLine?_eq_some_iff hmem).mpr ⟨hother, hsort'⟩
    rw [hlines] at hmem hsorted
    obtain ⟨_, _, hbefore⟩ := List.pairwise_append.mp hsorted
    rcases List.mem_append.mp hmem with hearlier | hmem
    · have := hbefore _ hearlier line List.mem_cons_self
      omega
    · rcases List.mem_cons.mp hmem with rfl | hbehind
      · omega
      · rw [hafter _ (List.mem_reverse.mp hbehind)] at hgives
        cases hgives
  · intro h
    obtain ⟨number, hstands, hsort, hlast⟩ := h
    obtain ⟨before, after, hlines⟩ := List.append_of_mem hstands.mem_numberedLines
    refine ⟨after.reverse, _, before.reverse, by rw [hlines]; simp,
      (filter_onLine?_eq_some_iff hstands.mem_numberedLines).mpr ⟨hstands, hsort⟩, ?_⟩
    intro line hline
    have hmem : line ∈ map.numberedLines := by
      rw [hlines]
      exact List.mem_append_right _ (List.mem_cons_of_mem _ (List.mem_reverse.mp hline))
    rw [hlines] at hsorted
    have hlater := (List.pairwise_cons.mp (List.pairwise_append.mp hsorted).2.1).1 line
      (List.mem_reverse.mp hline)
    rw [Option.eq_none_iff_forall_ne_some]
    intro other hother
    obtain ⟨hother, hsort'⟩ := (filter_onLine?_eq_some_iff hmem).mp hother
    exact hlast line.1 other hlater hother hsort'

/-- Nothing is found exactly if no directive of a text has an identifier of the sort. -/
theorem last?_eq_none_iff {map : LineMap} {sort : String → Prop} [DecidablePred sort] :
    last? map sort = none ↔
      ∀ number directive, StandsAt map number directive → ¬ sort directive.identifier := by
  rw [last?, List.getLast?_eq_none_iff, List.filterMap_eq_nil_iff]
  constructor
  · intro h number directive hstands hsort
    have hnone := h _ hstands.mem_numberedLines
    rw [(filter_onLine?_eq_some_iff hstands.mem_numberedLines).mpr ⟨hstands, hsort⟩] at hnone
    cases hnone
  · intro h line hline
    rw [Option.eq_none_iff_forall_ne_some]
    intro directive hfound
    obtain ⟨hstands, hsort⟩ := (filter_onLine?_eq_some_iff hline).mp hfound
    exact h _ directive hstands hsort

/-- The level that a line gives to a rule is that of its directive, if it calls the rule. -/
theorem levelIn?_eq (text : List Char) (info : RuleInfo) :
    levelIn? text info =
      ((onLine? text).filter fun directive => info.IsCalled directive.identifier).map level := by
  unfold levelIn? onLine?
  cases find? text with
  | none => rfl
  | some part =>
    simp only [Option.bind_some]
    cases parse part with
    | error e => rfl
    | ok directive =>
      by_cases hcalled : info.IsCalled directive.identifier <;>
        simp [Except.toOption, Option.filter, hcalled]

end Directive

namespace Configuration

open Text (LineMap)

variable {registry : Registry} {rule : Rule}

/-- The level of a registered rule for a source is the one of the last directive that calls the
rule, or else the configured one. -/
theorem level_withDirectives (h : registry.Consistent) (hrule : rule ∈ registry.rules)
    (config : Configuration) (source : String) :
    (config.withDirectives source (some registry)).1.level rule.info =
      ((Directive.last? (LineMap.ofText source) rule.info.IsCalled).map Directive.level).getD
        (config.level rule.info) := by
  have hfold := read_foldl (fun level line => (Directive.levelIn? line.2 rule.info).getD level) some
    (fun line => Directive.levelIn? line.2 rule.info)
    (fun level line => by cases Directive.levelIn? line.2 rule.info <;> rfl)
    (config.level rule.info) (LineMap.ofText source).numberedLines
  rw [withDirectives, level_applyLines h hrule]
  apply Option.some.inj
  rw [hfold, Directive.last?, ← List.getLast?_map, List.map_filterMap]
  simp only [Directive.levelIn?_eq]
  exact Option.or_some

/-- A line that is refused, with the warning about it: from its first marker on it spells no
directive, or one that calls no rule of the registry. -/
inductive Refused (registry : Registry) (number : Nat) (line : List Char) : Note → Prop
  | malformed {part : List Char} (hpart : Directive.IsMarkedPart line part)
      (hspells : ∀ directive, ¬ Directive.Spells part directive) :
      Refused registry number line
        ⟨.warning, s!"line {number}: Invalid lint directive: {String.ofList (Text.trim part)}"⟩
  | unknown {part : List Char} {directive : Directive} (hpart : Directive.IsMarkedPart line part)
      (hspells : Directive.Spells part directive)
      (hunknown : ∀ rule ∈ registry.rules, ¬ rule.info.IsCalled directive.identifier) :
      Refused registry number line
        ⟨.warning, s!"line {number}: unknown rule '{directive.identifier}' in lint directive"⟩

/-- The wording of a malformed directive on a line. -/
theorem line_message (number : Nat) (text : String) :
    s!"line {number}: {DirectiveError.message ⟨text⟩}" =
      s!"line {number}: Invalid lint directive: {text}" := by
  have hcolon : ": Invalid lint directive: " = ": " ++ "Invalid lint directive: " := by decide
  change "line " ++ toString number ++ ": " ++ ("Invalid lint directive: " ++ text) =
    "line " ++ toString number ++ ": Invalid lint directive: " ++ text
  rw [hcolon, ← String.append_assoc, ← String.append_assoc]

/-- A refused line leaves the configuration as it is and gives its warning. -/
theorem applyLine_of_refused (h : registry.Consistent) {number : Nat} {line : List Char}
    {note : Note} (hrefused : Refused registry number line note) (config : Configuration) :
    config.applyLine (some registry) number line = (config, some note) := by
  cases hrefused with
  | malformed hpart hspells =>
    simp only [applyLine, Directive.find?_eq_some_iff.mpr hpart,
      Directive.parse_eq_error_iff.mpr ⟨hspells, rfl⟩, line_message]
  | unknown hpart hspells hunknown =>
    simp only [applyLine, Directive.find?_eq_some_iff.mpr hpart,
      Directive.parse_eq_ok_iff.mpr hspells, h.get?_eq_none_iff.mpr hunknown]

/-- A line that gives a warning is refused. -/
theorem refused_of_applyLine (h : registry.Consistent) {config : Configuration} {number : Nat}
    {line : List Char} {note : Note}
    (hnote : (config.applyLine (some registry) number line).2 = some note) :
    Refused registry number line note := by
  unfold applyLine at hnote
  cases hfind : Directive.find? line with
  | none =>
    rw [hfind] at hnote
    cases hnote
  | some part =>
    have hpart := Directive.find?_eq_some_iff.mp hfind
    cases hparse : Directive.parse part with
    | error e =>
      obtain ⟨hspells, rfl⟩ := Directive.parse_eq_error_iff.mp hparse
      simp only [hfind, hparse, line_message] at hnote
      cases hnote
      exact .malformed hpart hspells
    | ok directive =>
      have hspells := Directive.parse_eq_ok_iff.mp hparse
      cases hget : registry.get? directive.identifier with
      | none =>
        simp only [hfind, hparse, hget] at hnote
        cases hnote
        exact .unknown hpart hspells (h.get?_eq_none_iff.mp hget)
      | some rule =>
        simp only [hfind, hparse, hget] at hnote
        cases hnote

/-- Lines are applied one after the other. -/
theorem applyLines_fst (registry : Option Registry) (config : Configuration)
    (lines : List (Nat × List Char)) :
    (config.applyLines registry lines).1 =
      lines.foldl (fun config line => (config.applyLine registry line.1 line.2).1) config := by
  induction lines generalizing config with
  | nil => rfl
  | cons line rest ih => exact ih _

open scoped Classical in
/-- The warnings about some lines belong to those that are refused, one to each and in order. -/
theorem forall₂_refused (h : registry.Consistent) (config : Configuration)
    (lines : List (Nat × List Char)) :
    List.Forall₂ (fun line note => Refused registry line.1 line.2 note)
      (lines.filter fun line => ∃ note, Refused registry line.1 line.2 note)
      (config.applyLines (some registry) lines).2 := by
  induction lines generalizing config with
  | nil => exact .nil
  | cons line rest ih =>
    obtain ⟨number, text⟩ := line
    change List.Forall₂ _ _ ((config.applyLine (some registry) number text).2.toList ++
      ((config.applyLine (some registry) number text).1.applyLines (some registry) rest).2)
    by_cases hrefused : ∃ note, Refused registry number text note
    · rw [List.filter_cons_of_pos (by simpa using hrefused)]
      obtain ⟨note, hnote⟩ := hrefused
      rw [applyLine_of_refused h hnote]
      exact .cons hnote (ih config)
    · rw [List.filter_cons_of_neg (by simpa using hrefused)]
      cases hnote : (config.applyLine (some registry) number text).2 with
      | none => exact ih _
      | some note => exact absurd ⟨note, refused_of_applyLine h hnote⟩ hrefused

/-- The warnings about a source belong to its refused lines, in order of their numbers. -/
theorem exists_refused_numbers (h : registry.Consistent) (config : Configuration)
    (source : String) :
    ∃ numbers : List Nat, numbers.Pairwise (· < ·) ∧
      (∀ number, number ∈ numbers ↔
        (1 ≤ number ∧ number ≤ (LineMap.ofText source).lineCount) ∧
          ∃ note, Refused registry number ((LineMap.ofText source).lineChars number) note) ∧
      List.Forall₂
        (fun number note =>
          Refused registry number ((LineMap.ofText source).lineChars number) note)
        numbers (config.withDirectives source (some registry)).2 := by
  classical
  let map := LineMap.ofText source
  let refused := map.numberedLines.filter fun line => ∃ note, Refused registry line.1 line.2 note
  have hlines (line : Nat × List Char) : line ∈ refused ↔ line ∈ map.numberedLines ∧
      ∃ note, Refused registry line.1 line.2 note := by
    simp [refused]
  refine ⟨refused.map Prod.fst, ?_, fun number => ?_, ?_⟩
  · rw [List.pairwise_map]
    exact map.pairwise_numberedLines.filter _
  · rw [List.mem_map]
    constructor
    · intro hnumber
      obtain ⟨line, hline, rfl⟩ := hnumber
      obtain ⟨hmem, hrefused⟩ := (hlines line).mp hline
      obtain ⟨hrange, htext⟩ := Text.LineMap.mem_numberedLines_iff.mp hmem
      exact ⟨hrange, htext ▸ hrefused⟩
    · intro hnumber
      obtain ⟨hrange, hrefused⟩ := hnumber
      exact ⟨(number, map.lineChars number),
        (hlines _).mpr ⟨Text.LineMap.mem_numberedLines_iff.mpr ⟨hrange, rfl⟩, hrefused⟩, rfl⟩
  · rw [List.forall₂_map_left_iff]
    have htext : ∀ line ∈ refused, map.lineChars line.1 = line.2 := fun line hline =>
      (Text.LineMap.mem_numberedLines_iff.mp ((hlines line).mp hline).1).2
    refine ((List.forall₂_and_left _ _).mpr
      ⟨htext, forall₂_refused h config map.numberedLines⟩).imp fun line note hboth => ?_
    exact hboth.1 ▸ hboth.2

/-- Where the rules are known, the level of a rule for a source is that of the last directive that
calls the rule by code or name, whatever the configuration gives to it, and the configured one if no
directive does. The warnings belong to the lines that are malformed or call no known rule, one to
each, with its number and in order of lines; and such a line changes nothing, after whatever lines
it stands. -/
theorem last_directive_wins (rules : List Rule) (registry : Registry)
    (hregistry : Registry.ofRules rules = .ok registry) (config : Configuration)
    (source : String) :
    (∀ rule ∈ registry.rules,
      (∀ directive, Directive.IsLast (LineMap.ofText source) rule.info.IsCalled directive →
        (config.withDirectives source (some registry)).1.level rule.info = directive.level) ∧
      ((∀ number directive, Directive.StandsAt (LineMap.ofText source) number directive →
          ¬ rule.info.IsCalled directive.identifier) →
        (config.withDirectives source (some registry)).1.level rule.info =
          config.level rule.info)) ∧
    (∃ numbers : List Nat, numbers.Pairwise (· < ·) ∧
      (∀ number, number ∈ numbers ↔
        (1 ≤ number ∧ number ≤ (LineMap.ofText source).lineCount) ∧
          ∃ note, Refused registry number ((LineMap.ofText source).lineChars number) note) ∧
      List.Forall₂
        (fun number note =>
          Refused registry number ((LineMap.ofText source).lineChars number) note)
        numbers (config.withDirectives source (some registry)).2) ∧
    ∀ lines number text note, Refused registry number text note →
      (config.applyLines (some registry) (lines ++ [(number, text)])).1 =
        (config.applyLines (some registry) lines).1 := by
  obtain ⟨h, _⟩ := Registry.consistent_of_ofRules hregistry
  refine ⟨fun rule hrule => ⟨fun directive hlast => ?_, fun hnone => ?_⟩,
    exists_refused_numbers h config source, fun lines number text note hrefused => ?_⟩
  · rw [level_withDirectives h hrule, Directive.last?_eq_some_iff.mpr hlast]
    rfl
  · rw [level_withDirectives h hrule, Directive.last?_eq_none_iff.mpr hnone]
    rfl
  · rw [applyLines_fst, applyLines_fst, List.foldl_append, List.foldl_cons, List.foldl_nil,
      applyLine_of_refused h hrefused]

/-- Four lines with a directive each: one with the code of a rule, a malformed one, one with the
name of the rule, and one with an unknown name. -/
def fourLines : String :=
  "let A; // typelint: deny(TL003)\n// typelint: bogus\n// typelint: allow(camel-case-naming)\n" ++
    "//typelint:warn(nobody)"

/-- The directive with the name of the rule is the last to call it and decides its level, before the
directive with the code and the level that is configured. The other two lines are refused. -/
theorem last_directive_fourLines :
    Registry.ofRules Catalog.rules = .ok Registry.reference ∧
    Catalog.camelCaseNaming ∈ Registry.reference.rules ∧
    (({ levels := [("TL003", .warn)] } : Configuration).withDirectives fourLines
      (some Registry.reference)).1.level Catalog.camelCaseNamingInfo = .allow ∧
    (({ levels := [("TL003", .warn)] } : Configuration).withDirectives fourLines
      (some Registry.reference)).2 =
        [⟨.warning, "line 2: Invalid lint directive: // typelint: bogus"⟩,
          ⟨.warning, "line 4: unknown rule 'nobody' in lint directive"⟩] := by
  have hregistry : Registry.ofRules Catalog.rules = .ok Registry.reference := rfl
  have hlast : Directive.IsLast (LineMap.ofText fourLines) Catalog.camelCaseNamingInfo.IsCalled
      ⟨.allow, "camel-case-naming"⟩ :=
    Directive.last?_eq_some_iff.mp (by decide +kernel)
  refine ⟨hregistry, Registry.camelCaseNaming_mem_reference, ?_, by decide +kernel⟩
  exact ((last_directive_wins Catalog.rules Registry.reference hregistry
    { levels := [("TL003", .warn)] } fourLines).1 Catalog.camelCaseNaming
      Registry.camelCaseNaming_mem_reference).1 _ hlast

end Configuration

end TreeLint
