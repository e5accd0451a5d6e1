import TreeLint.Proofs.Config.LastDirective

/-!
# Directives without a registry

Without a registry a directive is stored under the identifier that it has, be it the code of a rule
or its name. As codes are looked up before names, a directive with the name of a rule does nothing
where a level is stored at the code, by the configuration or by an earlier directive. The last
directive that calls a rule is therefore not always what decides its level, as it is with a
registry; the two agree exactly where no other level is stored at the code.
-/

namespace TreeLint

/-- The last directive that calls a rule is also the last one with its identifier. -/
theorem Directive.IsLast.of_isCalled {map : Text.LineMap} {info : RuleInfo} {directive : Directive}
    (h : IsLast map info.IsCalled directive) : IsLast map (· = directive.identifier) directive := by
  obtain ⟨number, hstands, hcalled, hlast⟩ := h
  refine ⟨number, hstands, rfl, fun later other hlater hother hsame => ?_⟩
  exact hlast later other hlater hother (hsame ▸ hcalled)

namespace Configuration

open Text (LineMap)

variable {registry : Registry} {rule : Rule}

/-- Without a registry, a line stores the level of its directive at the identifier of it. -/
theorem get?_applyLine (config : Configuration) (number : Nat) (text : List Char)
    (identifier : String) :
    (config.applyLine none number text).1.levels.get? identifier =
      (((Directive.onLine? text).filter fun directive => directive.identifier = identifier).map
        Directive.level).or (config.levels.get? identifier) := by
  unfold applyLine Directive.onLine?
  cases Directive.find? text with
  | none => rfl
  | some part =>
    simp only [Option.bind_some]
    cases Directive.parse part with
    | error e => rfl
    | ok directive =>
      refine (get?_set config directive.identifier identifier directive.level).trans ?_
      by_cases hidentifier : directive.identifier = identifier <;>
        simp [Except.toOption, Option.filter, hidentifier]

/-- Without a registry, an identifier has the level of the last directive with it, or else the
configured one. -/
theorem get?_withDirectives (config : Configuration) (source identifier : String) :
    (config.withDirectives source none).1.levels.get? identifier =
      ((Directive.last? (LineMap.ofText source) (· = identifier)).map Directive.level).or
        (config.levels.get? identifier) := by
  have hfold := read_foldl
    (fun (config : Configuration) (line : Nat × List Char) =>
      (config.applyLine none line.1 line.2).1)
    (fun config => config.levels.get? identifier)
    (fun line => ((Directive.onLine? line.2).filter fun directive =>
      directive.identifier = identifier).map Directive.level)
    (fun config line => get?_applyLine config line.1 line.2 identifier) config
    (LineMap.ofText source).numberedLines
  rw [withDirectives, applyLines_fst, Directive.last?, ← List.getLast?_map, List.map_filterMap]
  exact hfold

/-- A level that is stored at the code of a rule after the directives of a source: that of the last
directive with the code, or the configured one if there is no such directive. -/
def StoredAtCode (config : Configuration) (map : LineMap) (info : RuleInfo) (level : Level) :
    Prop :=
  (∃ directive, Directive.IsLast map (· = info.code) directive ∧ directive.level = level) ∨
    (∀ number directive, Directive.StandsAt map number directive →
      ¬ directive.identifier = info.code) ∧ config.levels.get? info.code = some level

/-- What is stored at the code of a rule after the directives of a source. -/
theorem get?_code_eq_some_iff {config : Configuration} {source : String} {info : RuleInfo}
    {level : Level} :
    (config.withDirectives source none).1.levels.get? info.code = some level ↔
      config.StoredAtCode (LineMap.ofText source) info level := by
  have hsome (directive : Directive) :
      Directive.IsLast (LineMap.ofText source) (· = info.code) directive ↔
        Directive.last? (LineMap.ofText source) (· = info.code) = some directive :=
    Directive.last?_eq_some_iff.symm
  have hnone := @Directive.last?_eq_none_iff (LineMap.ofText source) (· = info.code) _
  rw [get?_withDirectives, StoredAtCode, ← hnone]
  simp only [hsome]
  cases Directive.last? (LineMap.ofText source) (· = info.code) <;> simp

/-- Without a registry, the last directive that calls a rule decides its level if nothing is stored
at the code. -/
theorem level_of_isLast {config : Configuration} {source : String} {info : RuleInfo}
    {directive : Directive}
    (hlast : Directive.IsLast (LineMap.ofText source) info.IsCalled directive)
    (hcode : (config.withDirectives source none).1.levels.get? info.code = none) :
    (config.withDirectives source none).1.level info = directive.level := by
  have hown := Directive.last?_eq_some_iff.mpr hlast.of_isCalled
  have hstored : (config.withDirectives source none).1.levels.get? directive.identifier =
      some directive.level := by
    rw [get?_withDirectives, hown]
    rfl
  obtain ⟨_, _, hcalled | hcalled, _⟩ := hlast
  · rw [← hcalled, hcode] at hstored
    cases hstored
  · rw [level_eq, hcode, hcalled, hstored]
    rfl

/-- Without a registry, a rule that no directive calls keeps its level. -/
theorem level_of_forall_not_isCalled {config : Configuration} {source : String} {info : RuleInfo}
    (h : ∀ number directive, Directive.StandsAt (LineMap.ofText source) number directive →
      ¬ info.IsCalled directive.identifier) :
    (config.withDirectives source none).1.level info = config.level info := by
  have hcode : Directive.last? (LineMap.ofText source) (· = info.code) = none := by
    apply Directive.last?_eq_none_iff.mpr
    intro number directive hstands hsame
    exact h number directive hstands (.inl hsame.symm)
  have hname : Directive.last? (LineMap.ofText source) (· = info.name) = none := by
    apply Directive.last?_eq_none_iff.mpr
    intro number directive hstands hsame
    exact h number directive hstands (.inr hsame.symm)
  rw [level_eq, level_eq, get?_withDirectives, get?_withDirectives, hcode, hname]
  rfl

/-- Directives give a registered rule the same level with and without a registry exactly if every
level that is stored at the code of the rule, by the last directive with the code or else by the
configuration, is that of the last directive that calls the rule. -/
theorem modes_agree_iff (rules : List Rule) (registry : Registry)
    (hregistry : Registry.ofRules rules = .ok registry) (config : Configuration) (source : String)
    (rule : Rule) (hrule : rule ∈ registry.rules) :
    (config.withDirectives source none).1.level rule.info =
        (config.withDirectives source (some registry)).1.level rule.info ↔
      ∀ directive, Directive.IsLast (LineMap.ofText source) rule.info.IsCalled directive →
        ∀ level, config.StoredAtCode (LineMap.ofText source) rule.info level →
          level = directive.level := by
  obtain ⟨h, _⟩ := Registry.consistent_of_ofRules hregistry
  rw [level_withDirectives h hrule]
  simp only [← Directive.last?_eq_some_iff, ← get?_code_eq_some_iff]
  cases hlast : Directive.last? (LineMap.ofText source) rule.info.IsCalled with
  | none =>
    refine iff_of_true (level_of_forall_not_isCalled (Directive.last?_eq_none_iff.mp hlast)) ?_
    intro directive hdirective
    cases hdirective
  | some directive =>
    rw [Option.map_some, Option.getD_some]
    cases hcode : (config.withDirectives source none).1.levels.get? rule.info.code with
    | none =>
      refine iff_of_true (level_of_isLast (Directive.last?_eq_some_iff.mp hlast) hcode) ?_
      intro _ _ level hlevel
      cases hlevel
    | some stored =>
      have hlevel : (config.withDirectives source none).1.level rule.info = stored := by
        rw [level_eq, hcode]
        rfl
      rw [hlevel]
      constructor
      · intro hsame other hother level hstored
        cases hother
        cases hstored
        exact hsame
      · intro hsame
        exact hsame directive rfl stored rfl

/-- Two directives with the name of one rule. -/
def nameTwice : String :=
  "// typelint: deny(camel-case-naming)\nlet A; //typelint:allow(camel-case-naming)"

/-- Nothing is stored at the code by two directives with the name, and the modes agree. -/
theorem modes_agree_nameTwice :
    Registry.ofRules Catalog.rules = .ok Registry.reference ∧
    Catalog.camelCaseNaming ∈ Registry.reference.rules ∧
    (({} : Configuration).withDirectives nameTwice none).1.level Catalog.camelCaseNamingInfo =
      (({} : Configuration).withDirectives nameTwice (some Registry.reference)).1.level
        Catalog.camelCaseNamingInfo ∧
    (({} : Configuration).withDirectives nameTwice none).1.level Catalog.camelCaseNamingInfo =
      .allow := by
  have hregistry : Registry.ofRules Catalog.rules = .ok Registry.reference := rfl
  have hcode :
      (({} : Configuration).withDirectives nameTwice none).1.levels.get? "TL003" = none := by
    decide +kernel
  refine ⟨hregistry, Registry.camelCaseNaming_mem_reference, ?_, by decide +kernel⟩
  apply (modes_agree_iff Catalog.rules Registry.reference hregistry {} nameTwice
    Catalog.camelCaseNaming Registry.camelCaseNaming_mem_reference).mpr
  intro directive _ level hlevel
  rw [← get?_code_eq_some_iff] at hlevel
  cases hcode.symm.trans hlevel

/-- A configuration with a level for the code of a rule. -/
def codeDenied : Configuration :=
  { levels := [("TL003", .deny)] }

/-- A directive with the name of the rule. -/
def nameAllowed : String :=
  "// typelint: allow(camel-case-naming)"

/-- A directive with the code of the rule before the one with its name. -/
def codeBeforeName : String :=
  "// typelint: deny(TL003)\n// typelint: allow(camel-case-naming)"

/-- All directives here call known rules. With a registry the last one decides, and without one the
level at the code does, be it configured or given by an earlier directive. -/
theorem modes_differ_on_names :
    Catalog.camelCaseNaming ∈ Registry.reference.rules ∧
    (∀ source ∈ [nameAllowed, codeBeforeName], ∀ number directive,
      Directive.StandsAt (LineMap.ofText source) number directive →
        ∃ rule ∈ Registry.reference.rules, rule.info.IsCalled directive.identifier) ∧
    (codeDenied.withDirectives nameAllowed (some Registry.reference)).1.level
      Catalog.camelCaseNamingInfo = .allow ∧
    (codeDenied.withDirectives nameAllowed none).1.level Catalog.camelCaseNamingInfo = .deny ∧
    (({} : Configuration).withDirectives codeBeforeName (some Registry.reference)).1.level
      Catalog.camelCaseNamingInfo = .allow ∧
    (({} : Configuration).withDirectives codeBeforeName none).1.level
      Catalog.camelCaseNamingInfo = .deny := by
  have hknown : ∀ source ∈ [nameAllowed, codeBeforeName],
      Directive.last? (LineMap.ofText source)
        (fun identifier => ¬ ∃ rule ∈ Registry.reference.rules, rule.info.IsCalled identifier) =
          none := by
    decide +kernel
  refine ⟨Registry.camelCaseNaming_mem_reference, fun source hsource number directive hstands => ?_,
    by decide +kernel, by decide +kernel, by decide +kernel, by decide +kernel⟩
  exact not_not.mp
    (Directive.last?_eq_none_iff.mp (hknown source hsource) number directive hstands)

end Configuration

end TreeLint
