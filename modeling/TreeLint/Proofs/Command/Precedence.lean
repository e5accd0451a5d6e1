import TreeLint.Proofs.Command.Problems
import TreeLint.Proofs.Config.History

/-!
# Precedence of options

The options of the lint command write levels in a fixed order: those of a denied category, and then
those of warned, denied and allowed rules. All of them are written under the codes of rules, so that
a later option replaces an earlier one, by whichever of its two identifiers the rule was given. The
level of a rule is hence told by the options that name it, without regard to the order, the number
and the spelling of the identifiers inside of an option. An option that names nothing known is an
error, the category before the rules, and these in the order of the options; its words carry the
name that is not known.
-/

namespace TreeLint

/-- The category with a given name is the one that is called so. -/
theorem Category.ofLabel?_eq_some_iff {name : String} {category : Category} :
    ofLabel? name = some category ↔ category.label = name := by
  constructor
  · intro h
    rw [ofLabel?] at h
    simpa using List.find?_some h
  · rintro rfl
    cases category <;> decide

/-- A computation fails exactly if it does not succeed. -/
theorem exists_error_iff {ε α : Type} {x : Except ε α} :
    (∃ e, x = .error e) ↔ ¬ ∃ a, x = .ok a := by
  cases x <;> simp

namespace Command

/-- Settings with options as given, where no option is without its value. -/
def LintSettings.withOptions (settings : LintSettings) (category : Option String)
    (warn deny allow : List String) : LintSettings :=
  { settings with
    denyCategory := category
    warn := warn.map some
    deny := deny.map some
    allow := allow.map some }

/-- A name that some category has in lower case. -/
def IsCategory (name : String) : Prop :=
  ∃ category : Category, category.label = String.ofList (Text.lowerCase name.toList)

/-- A name of a category that is wrong: it is there, and no category has it. -/
def WrongCategory (category : Option String) (name : String) : Prop :=
  category = some name ∧ name ≠ "" ∧ ¬ IsCategory name

/-- An identifier that some rule of a registry is called by. -/
def IsKnown (registry : Registry) (identifier : String) : Prop :=
  ∃ rule ∈ registry.rules, rule.info.IsCalled identifier

/-- A rule is of the category given, if one is given; letter case does not matter. -/
def IsIn (info : RuleInfo) (category : Option String) : Prop :=
  category.map (fun name => String.ofList (Text.lowerCase name.toList)) = some info.category.label

instance (info : RuleInfo) (category : Option String) : Decidable (IsIn info category) :=
  inferInstanceAs (Decidable (_ = _))

/-- The level that options give to a rule: to allow it comes first, then to deny it, then to warn
about it, then to deny its category, and then its own level. -/
def optionLevel (category : Option String) (warn deny allow : List String) (info : RuleInfo) :
    Level :=
  if ∃ identifier ∈ allow, info.IsCalled identifier then .allow
  else if ∃ identifier ∈ deny, info.IsCalled identifier then .deny
  else if ∃ identifier ∈ warn, info.IsCalled identifier then .warn
  else if IsIn info category then .deny
  else info.level

/-- Two identifiers that are the same, or that one rule is called by. -/
def Alike (registry : Registry) (identifier other : String) : Prop :=
  identifier = other ∨
    ∃ rule ∈ registry.rules, rule.info.IsCalled identifier ∧ rule.info.IsCalled other

/-- Two lists of identifiers of which each has, for every identifier of the other, one that is
alike. Identifiers may stand in another order, be repeated, and be codes in one list and names in
the other. -/
def SameRules (registry : Registry) (identifiers others : List String) : Prop :=
  (∀ identifier ∈ identifiers, ∃ other ∈ others, Alike registry identifier other) ∧
    ∀ other ∈ others, ∃ identifier ∈ identifiers, Alike registry identifier other

/-- A category is denied by a name exactly if its label is the name in lower case. -/
theorem isIn_some_iff {info : RuleInfo} {name : String} :
    IsIn info (some name) ↔
      Category.ofLabel? (String.ofList (Text.lowerCase name.toList)) = some info.category := by
  rw [Category.ofLabel?_eq_some_iff, IsIn, Option.map_some, Option.some.injEq, eq_comm]

section Levels

variable {registry : Registry} {rule : Rule} {config next : Configuration}

/-- After the identifiers of an option a rule has the level of the option if one of them names it,
and otherwise the level that it had. -/
theorem level_setNamed (h : registry.Consistent) (hrule : rule ∈ registry.rules) {level : Level}
    {identifiers : List String}
    (hset : setNamed registry level config (identifiers.map some) = .ok next) :
    next.level rule.info =
      if ∃ identifier ∈ identifiers, rule.info.IsCalled identifier then level
      else config.level rule.info := by
  induction identifiers generalizing config with
  | nil =>
    cases hset
    simp
  | cons identifier rest ih =>
    rw [List.map_cons, setNamed] at hset
    cases hget : registry.get? identifier with
    | none => simp [hget] at hset
    | some named =>
      rw [hget] at hset
      obtain ⟨hnamed, hcalled⟩ := (h.get?_eq_some_iff identifier named).mp hget
      rw [ih hset]
      simp only [List.exists_mem_cons_iff]
      by_cases hsame : rule = named
      · subst hsame
        simp [hcalled, Configuration.level_set_code]
      · have hother : ¬ rule.info.IsCalled identifier := fun hrule' =>
          hsame (h.eq_of_isCalled hrule hnamed hrule' hcalled)
        simp only [hother, false_or, Configuration.level_set_code_of_ne h hrule hnamed hsame]

/-- With no levels but those of a denied category, the rules of that category are denied and all
others have their own level. -/
theorem level_setCategory_deny (h : registry.Consistent) (hrule : rule ∈ registry.rules)
    (honors : Bool) (category : Category) :
    (({ honorsDirectives := honors } : Configuration).setCategory category .deny registry).level
        rule.info =
      if rule.info.category = category then .deny else rule.info.level := by
  have hlevel := Configuration.level_change h hrule { honorsDirectives := honors } .nil
    [.setCategory category .deny]
  refine hlevel.trans ?_
  by_cases hcategory : rule.info.category = category <;>
    simp [Configuration.levelIn, Configuration.entries, Change.byCode?, Change.byName?, hcategory]

/-- With a category denied by its name, its rules are denied and all others have their own level. -/
theorem level_denyCategory (h : registry.Consistent) (hrule : rule ∈ registry.rules)
    {category : Option String} {honors : Bool}
    (hdeny : denyCategory registry { honorsDirectives := honors } category = .ok next) :
    next.level rule.info = if IsIn rule.info category then .deny else rule.info.level := by
  cases category with
  | none =>
    cases hdeny
    rfl
  | some name =>
    simp only [denyCategory, String.isEmpty_iff] at hdeny
    by_cases hempty : name = ""
    · rw [if_pos hempty] at hdeny
      cases hdeny
      have hnone : ¬ IsIn rule.info (some name) := by
        rw [isIn_some_iff, hempty]
        cases rule.info.category <;> decide
      rw [if_neg hnone]
      rfl
    · rw [if_neg hempty] at hdeny
      cases hlabel : Category.ofLabel? (String.ofList (Text.lowerCase name.toList)) with
      | none => simp [hlabel] at hdeny
      | some category =>
        simp only [hlabel, Except.ok.injEq] at hdeny
        rw [← hdeny, level_setCategory_deny h hrule]
        simp only [isIn_some_iff, hlabel, Option.some.injEq, eq_comm]

/-- The level of a rule in the configuration that options ask for. -/
theorem level_configuration (h : registry.Consistent) (hrule : rule ∈ registry.rules)
    {settings : LintSettings} {category : Option String} {warn deny allow : List String}
    (hconfig : configuration registry (settings.withOptions category warn deny allow) =
      .ok config) :
    config.level rule.info = optionLevel category warn deny allow rule.info := by
  rw [configuration] at hconfig
  obtain ⟨denied, hcategory, hconfig⟩ := Document.bind_eq_ok_iff.mp hconfig
  obtain ⟨warned, hwarn, hconfig⟩ := Document.bind_eq_ok_iff.mp hconfig
  obtain ⟨refused, hdeny, hallow⟩ := Document.bind_eq_ok_iff.mp hconfig
  rw [level_setNamed h hrule hallow, level_setNamed h hrule hdeny, level_setNamed h hrule hwarn,
    level_denyCategory h hrule hcategory]
  rfl

end Levels

/-! ### Wrong options -/

/-- The error for the first thing that is wrong: the category, or else the first of the identifiers
that no rule is called by. -/
inductive FirstWrong (registry : Registry) (category : Option String) (identifiers : List String) :
    OptionError → Prop
  | category {name : String} (hname : WrongCategory category name) :
      FirstWrong registry category identifiers (.unknownCategory name)
  | rule {front back : List String} {identifier : String}
      (hcategory : ∀ name, ¬ WrongCategory category name)
      (hsplit : identifiers = front ++ identifier :: back)
      (hfront : ∀ known ∈ front, IsKnown registry known)
      (hunknown : ¬ IsKnown registry identifier) :
      FirstWrong registry category identifiers (.unknownRule identifier)

/-- The words for an option that is wrong. -/
inductive OptionWords : OptionError → String → Prop
  | category (name : String) :
      OptionWords (.unknownCategory name)
        ("Unknown category '" ++ name ++ "' (valid categories: types, style)")
  | rule (identifier : String) :
      OptionWords (.unknownRule identifier) ("Unknown rule '" ++ identifier ++ "'")

/-- An unknown category is told together with all categories that there are. -/
theorem OptionError.message_unknownCategory (name : String) :
    (OptionError.unknownCategory name).message =
      "Unknown category '" ++ name ++ "' (valid categories: types, style)" := by
  have hvalid : ", ".intercalate (Category.all.map Category.label) = "types, style" := by
    change ", ".intercalate ["types", "style"] = _
    rw [String.intercalate_cons_cons, String.intercalate_singleton]
    rfl
  change "Unknown category '" ++ name ++ "' (valid categories: " ++
    ", ".intercalate (Category.all.map Category.label) ++ ")" = _
  rw [hvalid, String.append_assoc, String.append_assoc]
  rfl

/-- The error for the first thing that is wrong is told in the words for it. -/
theorem FirstWrong.optionWords {registry : Registry} {category : Option String}
    {identifiers : List String} {e : OptionError} (h : FirstWrong registry category identifiers e) :
    OptionWords e e.message := by
  cases h with
  | category =>
    rw [OptionError.message_unknownCategory]
    exact .category _
  | rule => exact .rule _

section Errors

variable {registry : Registry} {settings : LintSettings} {category : Option String}
  {warn deny allow : List String}

/-- What is wrong with a category is its name. -/
theorem unknownCategory?_eq_some_iff {e : OptionError} :
    unknownCategory? category = some e ↔
      ∃ name, WrongCategory category name ∧ e = .unknownCategory name := by
  cases category with
  | none => simp [unknownCategory?, WrongCategory]
  | some name =>
    have hlabel : String.ofList (Text.lowerCase name.toList) ∈ Category.all.map Category.label ↔
        IsCategory name := by
      rw [List.mem_map, IsCategory]
      refine exists_congr fun category => and_iff_right ?_
      cases category <;> decide
    rw [unknownCategory?, Option.ite_none_left_eq_some, not_or, hlabel]
    constructor
    · rintro ⟨⟨hgiven, hunknown⟩, hwrong⟩
      exact ⟨name, ⟨rfl, hgiven, hunknown⟩, (Option.some.inj hwrong).symm⟩
    · rintro ⟨other, ⟨hother, hgiven, hunknown⟩, rfl⟩
      cases hother
      exact ⟨⟨hgiven, hunknown⟩, rfl⟩

/-- Nothing is wrong with a category exactly if no name of it is wrong. -/
theorem unknownCategory?_eq_none_iff :
    unknownCategory? category = none ↔ ∀ name, ¬ WrongCategory category name := by
  simp only [Option.eq_none_iff_forall_ne_some, ne_eq, unknownCategory?_eq_some_iff, not_exists,
    not_and]
  exact ⟨fun hnone name hname => hnone _ name hname rfl, fun hnone _ name hname => absurd hname
    (hnone name)⟩

/-- What is wrong with an identifier is that no rule is called so. -/
theorem unknownRule?_eq_some_iff (h : registry.Consistent) {identifier : String}
    {e : OptionError} :
    unknownRule? registry (some identifier) = some e ↔
      ¬ IsKnown registry identifier ∧ .unknownRule identifier = e := by
  have hknown : (registry.get? identifier).isSome = true ↔ IsKnown registry identifier := by
    rw [Option.isSome_iff_exists]
    exact exists_congr (h.get?_eq_some_iff identifier)
  rw [unknownRule?, Option.ite_none_left_eq_some, hknown, Option.some.injEq]

/-- Nothing is wrong with an identifier exactly if it is known. -/
theorem unknownRule?_eq_none_iff (h : registry.Consistent) {identifier : String} :
    unknownRule? registry (some identifier) = none ↔ IsKnown registry identifier := by
  rw [Option.eq_none_iff_forall_ne_some]
  simp [unknownRule?_eq_some_iff h]

/-- The problem with options is looked for in the category, and then in the identifiers. -/
theorem optionProblem?_withOptions :
    optionProblem? registry (settings.withOptions category warn deny allow) =
      (unknownCategory? category).or
        ((warn ++ deny ++ allow).findSome? fun identifier =>
          unknownRule? registry (some identifier)) := by
  rw [optionProblem?, LintSettings.identifiers]
  simp only [LintSettings.withOptions, ← List.map_append, List.findSome?_map]
  rfl

/-- Options are refused with the error for the first thing that is wrong. -/
theorem configuration_eq_error_iff (h : registry.Consistent) {e : OptionError} :
    configuration registry (settings.withOptions category warn deny allow) = .error e ↔
      FirstWrong registry category (warn ++ deny ++ allow) e := by
  rw [← problem?_eq_some_iff, problem?_configuration, optionProblem?_withOptions,
    Option.or_eq_some_iff, unknownCategory?_eq_some_iff, unknownCategory?_eq_none_iff,
    List.findSome?_eq_some_iff]
  constructor
  · rintro (⟨name, hname, rfl⟩ | ⟨hcategory, front, identifier, back, hsplit, hwrong, hfront⟩)
    · exact .category hname
    · obtain ⟨hunknown, rfl⟩ := (unknownRule?_eq_some_iff h).mp hwrong
      exact .rule hcategory hsplit
        (fun known hknown => (unknownRule?_eq_none_iff h).mp (hfront known hknown)) hunknown
  · intro hwrong
    cases hwrong with
    | category hname => exact .inl ⟨_, hname, rfl⟩
    | rule hcategory hsplit hfront hunknown =>
      exact .inr ⟨hcategory, _, _, _, hsplit, (unknownRule?_eq_some_iff h).mpr ⟨hunknown, rfl⟩,
        fun known hknown => (unknownRule?_eq_none_iff h).mpr (hfront known hknown)⟩

/-- Options are accepted exactly if the category is not wrong and all identifiers are known. -/
theorem configuration_eq_ok_iff (h : registry.Consistent) :
    (∃ config, configuration registry (settings.withOptions category warn deny allow) =
        .ok config) ↔
      (∀ name, ¬ WrongCategory category name) ∧
      ∀ identifier ∈ warn ++ deny ++ allow, IsKnown registry identifier := by
  rw [← problem?_eq_none_iff, problem?_configuration, optionProblem?_withOptions,
    Option.or_eq_none_iff, unknownCategory?_eq_none_iff, List.findSome?_eq_none_iff]
  simp only [unknownRule?_eq_none_iff h]

end Errors

/-! ### Identifiers of the same rules -/

section SameRules

variable {registry : Registry} {identifiers others : List String}

/-- Of identifiers that are alike, both are known or none. -/
theorem Alike.isKnown_iff {identifier other : String} (h : Alike registry identifier other) :
    IsKnown registry identifier ↔ IsKnown registry other := by
  rcases h with rfl | ⟨rule, hrule, hidentifier, hother⟩
  · rfl
  · exact ⟨fun _ => ⟨rule, hrule, hother⟩, fun _ => ⟨rule, hrule, hidentifier⟩⟩

/-- Of identifiers that are alike, a rule is called by both or by none. -/
theorem Alike.isCalled_iff (h : registry.Consistent) {identifier other : String}
    (halike : Alike registry identifier other) {rule : Rule} (hrule : rule ∈ registry.rules) :
    rule.info.IsCalled identifier ↔ rule.info.IsCalled other := by
  rcases halike with rfl | ⟨named, hnamed, hidentifier, hother⟩
  · rfl
  · constructor
    · intro hcalled
      rwa [h.eq_of_isCalled hrule hnamed hcalled hidentifier]
    · intro hcalled
      rwa [h.eq_of_isCalled hrule hnamed hcalled hother]

/-- What identifiers that are alike share is found in both of two lists of the same rules or in
none. -/
theorem SameRules.exists_iff (h : SameRules registry identifiers others) {P : String → Prop}
    (hP : ∀ identifier other, Alike registry identifier other → (P identifier ↔ P other)) :
    (∃ identifier ∈ identifiers, P identifier) ↔ ∃ other ∈ others, P other := by
  constructor
  · rintro ⟨identifier, hidentifier, hholds⟩
    obtain ⟨other, hother, halike⟩ := h.1 identifier hidentifier
    exact ⟨other, hother, (hP identifier other halike).mp hholds⟩
  · rintro ⟨other, hother, hholds⟩
    obtain ⟨identifier, hidentifier, halike⟩ := h.2 other hother
    exact ⟨identifier, hidentifier, (hP identifier other halike).mpr hholds⟩

/-- In both of two lists of the same rules all identifiers are known, or in none. -/
theorem SameRules.forall_isKnown_iff (h : SameRules registry identifiers others) :
    (∀ identifier ∈ identifiers, IsKnown registry identifier) ↔
      ∀ other ∈ others, IsKnown registry other := by
  have hunknown := h.exists_iff fun identifier other halike => not_congr halike.isKnown_iff
  simpa using not_congr hunknown

/-- For a registered rule, lists of the same rules give the same level. -/
theorem optionLevel_of_sameRules (h : registry.Consistent) {warn deny allow : List String}
    {warn' deny' allow' : List String} (hwarn : SameRules registry warn warn')
    (hdeny : SameRules registry deny deny') (hallow : SameRules registry allow allow')
    (category : Option String) {rule : Rule} (hrule : rule ∈ registry.rules) :
    optionLevel category warn' deny' allow' rule.info =
      optionLevel category warn deny allow rule.info := by
  have hcalled (identifier other : String) (halike : Alike registry identifier other) :
      rule.info.IsCalled identifier ↔ rule.info.IsCalled other := halike.isCalled_iff h hrule
  simp only [optionLevel, hwarn.exists_iff hcalled, hdeny.exists_iff hcalled,
    hallow.exists_iff hcalled]

end SameRules

/-- Options are refused exactly if the category is wrong or an identifier is not known, with the
error for the first thing that is wrong, told in the words for it. Otherwise every registered rule
has the level of the last group of options that names it. Other lists of the same rules are accepted
as well, and give every rule the same level. -/
theorem options_by_precedence (rules : List Rule) (registry : Registry)
    (hregistry : Registry.ofRules rules = .ok registry) (settings : LintSettings)
    (category : Option String) (warn deny allow : List String) :
    ((∃ e, configuration registry (settings.withOptions category warn deny allow) = .error e) ↔
      (∃ name, WrongCategory category name) ∨
        ∃ identifier ∈ warn ++ deny ++ allow, ¬ IsKnown registry identifier) ∧
    (∀ e, configuration registry (settings.withOptions category warn deny allow) = .error e ↔
      FirstWrong registry category (warn ++ deny ++ allow) e) ∧
    (∀ e, configuration registry (settings.withOptions category warn deny allow) = .error e →
      OptionWords e e.message) ∧
    ∀ config, configuration registry (settings.withOptions category warn deny allow) = .ok config →
      (∀ rule ∈ registry.rules,
        config.level rule.info = optionLevel category warn deny allow rule.info) ∧
      ∀ warn' deny' allow' : List String, SameRules registry warn warn' →
        SameRules registry deny deny' → SameRules registry allow allow' →
        ∃ other, configuration registry (settings.withOptions category warn' deny' allow') =
            .ok other ∧
          ∀ rule ∈ registry.rules, other.level rule.info = config.level rule.info := by
  obtain ⟨h, _⟩ := Registry.consistent_of_ofRules hregistry
  refine ⟨?_, fun e => configuration_eq_error_iff h,
    fun e he => ((configuration_eq_error_iff h).mp he).optionWords, fun config hconfig =>
    ⟨fun rule hrule => level_configuration h hrule hconfig, ?_⟩⟩
  · rw [exists_error_iff, configuration_eq_ok_iff h]
    simp only [not_and_or, not_forall, not_not, exists_prop]
  · intro warn' deny' allow' hwarn hdeny hallow
    obtain ⟨hcategory, hknown⟩ := (configuration_eq_ok_iff h).mp ⟨config, hconfig⟩
    have hknown' : ∀ identifier ∈ warn' ++ deny' ++ allow', IsKnown registry identifier := by
      simp only [List.forall_mem_append] at hknown ⊢
      obtain ⟨⟨hwarned, hdenied⟩, hallowed⟩ := hknown
      exact ⟨⟨hwarn.forall_isKnown_iff.mp hwarned, hdeny.forall_isKnown_iff.mp hdenied⟩,
        hallow.forall_isKnown_iff.mp hallowed⟩
    obtain ⟨other, hother⟩ := (configuration_eq_ok_iff h).mpr ⟨hcategory, hknown'⟩
    refine ⟨other, hother, fun rule hrule => ?_⟩
    rw [level_configuration h hrule hother, level_configuration h hrule hconfig,
      optionLevel_of_sameRules h hwarn hdeny hallow category hrule]

/-- The naming rule is denied with its category, warned about and denied by its code, and allowed by
its name: it is allowed. So it is when the rules are denied in another order, one of them twice and
the other by name. An unknown rule to deny is found before one to allow. -/
theorem options_for_camelCaseNaming :
    Registry.ofRules Catalog.rules = .ok Registry.reference ∧
    (∃ config other : Configuration,
      configuration Registry.reference (LintSettings.withOptions {} (some "Style") ["TL003"]
        ["TL003", "TL001"] ["camel-case-naming"]) = .ok config ∧
      configuration Registry.reference (LintSettings.withOptions {} (some "Style") ["TL003"]
        ["explicit-return-type", "TL003", "TL003"] ["TL003"]) = .ok other ∧
      config.level Catalog.camelCaseNamingInfo = .allow ∧
      other.level Catalog.camelCaseNamingInfo = .allow) ∧
    configuration Registry.reference (LintSettings.withOptions {} (some "") ["TL003"] ["nobody"]
      ["noone"]) = .error (.unknownRule "nobody") := by
  have hregistry : Registry.ofRules Catalog.rules = .ok Registry.reference := rfl
  have hrules := options_by_precedence Catalog.rules Registry.reference hregistry {}
  obtain ⟨_, _, _, hlevels⟩ :=
    hrules (some "Style") ["TL003"] ["TL003", "TL001"] ["camel-case-naming"]
  obtain ⟨_, hwrong, _⟩ := hrules (some "") ["TL003"] ["nobody"] ["noone"]
  obtain ⟨hlevel, hother⟩ := hlevels _ rfl
  obtain ⟨other, hother, hsame⟩ := hother ["TL003"] ["explicit-return-type", "TL003", "TL003"]
    ["TL003"] (by unfold SameRules Alike; decide) (by unfold SameRules Alike; decide)
    (by unfold SameRules Alike; decide)
  have hallow := hlevel Catalog.camelCaseNaming Registry.camelCaseNaming_mem_reference
  refine ⟨hregistry, ⟨_, other, rfl, hother, hallow.trans (by decide),
    (hsame _ Registry.camelCaseNaming_mem_reference).trans (hallow.trans (by decide))⟩, ?_⟩
  have hsplit : ["TL003"] ++ ["nobody"] ++ ["noone"] = ["TL003"] ++ "nobody" :: ["noone"] := rfl
  have hempty (name : String) : ¬ WrongCategory (some "") name := fun hname =>
    hname.2.1 (Option.some.inj hname.1).symm
  exact (hwrong _).mpr (.rule hempty hsplit (by unfold IsKnown; decide) (by unfold IsKnown; decide))

end Command

end TreeLint
