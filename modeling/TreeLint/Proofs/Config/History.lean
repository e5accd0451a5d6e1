import Mathlib.Data.List.Induction
import TreeLint.Proofs.Config.Levels

/-!
# Histories of a configuration

The levels of a configuration come about by changes: to one identifier, to the rules of a category,
or to all rules. The last two are written under the codes of rules, and as no two rules share an
identifier such a write is never read as a level for another rule. The level of a rule is therefore
the one last given to its code, else the one last given to its name, else its own; the entries that
a configuration starts with count as its first changes.
-/

namespace TreeLint

/-- A change to the levels of a configuration. -/
inductive Change where
  | set (identifier : String) (level : Level)
  | setCategory (category : Category) (level : Level)
  | setAll (level : Level)
deriving DecidableEq

namespace Change

/-- Make a change for the rules of a registry. -/
def apply (registry : Registry) (config : Configuration) : Change → Configuration
  | .set identifier level => config.set identifier level
  | .setCategory category level => config.setCategory category level registry
  | .setAll level => config.setAll level registry

/-- The level that a change gives to a rule by its code. -/
def byCode? (info : RuleInfo) : Change → Option Level
  | .set identifier level => if identifier = info.code then some level else none
  | .setCategory category level => if info.category = category then some level else none
  | .setAll level => some level

/-- The level that a change gives to a rule by its name. -/
def byName? (info : RuleInfo) : Change → Option Level
  | .set identifier level => if identifier = info.name then some level else none
  | .setCategory _ _ => none
  | .setAll _ => none

end Change

/-- In a table with one row for each key, the last row of a key is its value. -/
theorem Table.get?_eq_getLast? {κ α : Type} [DecidableEq κ] {rows : Table κ α}
    (h : rows.keys.Nodup) (key : κ) :
    rows.get? key =
      (rows.filterMap fun row => if row.1 = key then some row.2 else none).getLast? := by
  induction rows with
  | nil => rfl
  | cons row rest ih =>
    obtain ⟨hrow, hrest⟩ := List.nodup_cons.mp h
    rw [Table.get?, List.filterMap_cons]
    by_cases hkey : row.1 = key
    · have hnone : rest.filterMap (fun row => if row.1 = key then some row.2 else none) = [] := by
        rw [List.filterMap_eq_nil_iff]
        intro other hother
        rw [if_neg]
        rintro rfl
        exact hrow (hkey ▸ List.mem_map_of_mem hother)
      simp [hkey, hnone]
    · simp only [hkey, if_false]
      exact ih hrest

namespace Configuration

variable {registry : Registry} {rule : Rule}

/-- Make some changes in order. -/
def change (config : Configuration) (registry : Registry) (changes : List Change) : Configuration :=
  changes.foldl (Change.apply registry) config

/-- The entries of a configuration, as changes to one identifier each. -/
def entries (config : Configuration) : List Change :=
  config.levels.map fun entry => .set entry.1 entry.2

/-- A level for some rules leaves every identifier as it was that is not the code of one. -/
theorem get?_setRules_of_ne (config : Configuration) {rules : List Rule} (level : Level)
    {identifier : String} (h : ∀ rule ∈ rules, identifier ≠ rule.info.code) :
    (config.setRules rules level).levels.get? identifier = config.levels.get? identifier := by
  induction rules generalizing config with
  | nil => rfl
  | cons rule rest ih =>
    obtain ⟨hrule, hrest⟩ := List.forall_mem_cons.mp h
    exact (ih (config.set rule.info.code level) hrest).trans (Table.get?_set_of_ne _ _ hrule)

/-- A level for some rules is stored at the code of each. -/
theorem get?_setRules_of_mem (config : Configuration) {rules : List Rule} (level : Level)
    (h : rule ∈ rules) :
    (config.setRules rules level).levels.get? rule.info.code = some level := by
  induction rules using List.reverseRecOn with
  | nil => cases h
  | append_singleton rules last ih =>
    rw [setRules, List.foldl_append, List.foldl_cons, List.foldl_nil]
    change ((config.setRules rules level).set _ level).levels.get? _ = _
    rw [get?_set]
    rcases List.mem_append.mp h with hrule | hlast
    · rw [ih hrule]
      split <;> rfl
    · rw [List.mem_singleton.mp hlast, if_pos rfl, Option.some_or]

/-- A change stores at the code of a registered rule what it gives to the rule by code. -/
theorem get?_code_apply (h : registry.Consistent) (hrule : rule ∈ registry.rules)
    (config : Configuration) (change : Change) :
    (change.apply registry config).levels.get? rule.info.code =
      (change.byCode? rule.info).or (config.levels.get? rule.info.code) := by
  cases change with
  | set identifier level => exact get?_set config identifier rule.info.code level
  | setCategory category level =>
    by_cases hcategory : rule.info.category = category
    · rw [Change.byCode?, if_pos hcategory, Option.some_or]
      exact get?_setRules_of_mem config level
        (List.mem_filter.mpr ⟨hrule, decide_eq_true hcategory⟩)
    · rw [Change.byCode?, if_neg hcategory, Option.none_or]
      apply get?_setRules_of_ne
      intro other hother hcode
      obtain ⟨hother, hcategory'⟩ := List.mem_filter.mp hother
      cases h.eq_of_isCalled hrule hother (.inl hcode) other.info.isCalled_code
      exact hcategory (of_decide_eq_true hcategory')
  | setAll level => exact get?_setRules_of_mem config level hrule

/-- A level for registered rules is not stored at the name of one, unless that is its code too. -/
theorem get?_name_setRules (h : registry.Consistent) (hrule : rule ∈ registry.rules)
    (hne : rule.info.name ≠ rule.info.code) {rules : List Rule} (hrules : rules ⊆ registry.rules)
    (config : Configuration) (level : Level) :
    (config.setRules rules level).levels.get? rule.info.name =
      config.levels.get? rule.info.name := by
  apply get?_setRules_of_ne
  intro other hother hname
  cases h.eq_of_isCalled hrule (hrules hother) (.inr hname) other.info.isCalled_code
  exact hne hname

/-- A change stores at the name of a registered rule, if that is not its code too, what it gives to
the rule by name. -/
theorem get?_name_apply (h : registry.Consistent) (hrule : rule ∈ registry.rules)
    (hne : rule.info.name ≠ rule.info.code) (config : Configuration) (change : Change) :
    (change.apply registry config).levels.get? rule.info.name =
      (change.byName? rule.info).or (config.levels.get? rule.info.name) := by
  cases change with
  | set identifier level => exact get?_set config identifier rule.info.name level
  | setCategory category level =>
    exact get?_name_setRules h hrule hne (List.filter_subset_self _) config level
  | setAll level => exact get?_name_setRules h hrule hne (List.Subset.refl _) config level

/-- The level that a history of changes gives to a rule: the one last given by code, else the one
last given by name, else its own. -/
def levelIn (history : List Change) (info : RuleInfo) : Level :=
  ((history.filterMap (·.byCode? info)).getLast?.or
    (history.filterMap (·.byName? info)).getLast?).getD info.level

/-- What an identifier has after some changes was given by the last change of the whole history that
gives it anything, if every change stores what it gives. -/
theorem get?_change (registry : Registry) (identifier : String) (given : Change → Option Level)
    (hset : ∀ other level,
      given (.set other level) = if other = identifier then some level else none)
    (hstep : ∀ (config : Configuration) change,
      (Change.apply registry config change).levels.get? identifier =
        (given change).or (config.levels.get? identifier))
    (config : Configuration) (hkeys : config.levels.keys.Nodup) (changes : List Change) :
    (config.change registry changes).levels.get? identifier =
      ((config.entries ++ changes).filterMap given).getLast? := by
  have hentries : config.levels.get? identifier = (config.entries.filterMap given).getLast? := by
    rw [Table.get?_eq_getLast? hkeys, entries, List.filterMap_map]
    congr 2
    funext entry
    exact (hset entry.1 entry.2).symm
  rw [List.filterMap_append, List.getLast?_append, ← hentries]
  exact read_foldl (Change.apply registry) (fun config => config.levels.get? identifier) given hstep
    config changes

/-- A history that gives nothing by code gives nothing by a name that equals the code. -/
theorem last_byName?_eq_none {info : RuleInfo} (hsame : info.name = info.code)
    {history : List Change} (h : (history.filterMap (·.byCode? info)).getLast? = none) :
    (history.filterMap (·.byName? info)).getLast? = none := by
  rw [List.getLast?_eq_none_iff, List.filterMap_eq_nil_iff] at h ⊢
  intro change hchange
  cases change with
  | set identifier level =>
    rw [Change.byName?, hsame]
    exact h _ hchange
  | setCategory category level => rfl
  | setAll level => rfl

/-- After some changes the level of a registered rule is the one that the whole history gives. -/
theorem level_change (h : registry.Consistent) (hrule : rule ∈ registry.rules)
    (config : Configuration) (hkeys : config.levels.keys.Nodup) (changes : List Change) :
    (config.change registry changes).level rule.info =
      levelIn (config.entries ++ changes) rule.info := by
  have hcode := get?_change registry rule.info.code (Change.byCode? rule.info) (fun _ _ => rfl)
    (get?_code_apply h hrule) config hkeys changes
  rw [level_eq, hcode, levelIn]
  by_cases hsame : rule.info.name = rule.info.code
  · rw [hsame, hcode]
    cases hlast : ((config.entries ++ changes).filterMap (·.byCode? rule.info)).getLast? with
    | none => rw [last_byName?_eq_none hsame hlast]
    | some level => rfl
  · rw [get?_change registry rule.info.name (Change.byName? rule.info) (fun _ _ => rfl)
      (get?_name_apply h hrule hsame) config hkeys changes]

/-- The level of a registered rule after a history of changes, the entries of the configuration
being the first: it is the one last given to the rule by its code, where changes to a category or to
all rules give by code; else the one last given by its name; else its own. A change to all rules
hence decides the level of each, whatever came before, and a change to a category leaves the level
of every rule outside of it. -/
theorem level_after_history (rules : List Rule) (registry : Registry)
    (hregistry : Registry.ofRules rules = .ok registry) (config : Configuration)
    (hkeys : config.levels.keys.Nodup) (changes : List Change) (rule : Rule)
    (hrule : rule ∈ registry.rules) :
    (config.change registry changes).level rule.info =
      (((config.entries ++ changes).filterMap (·.byCode? rule.info)).getLast?.or
        ((config.entries ++ changes).filterMap (·.byName? rule.info)).getLast?).getD
          rule.info.level ∧
    (∀ level, (config.change registry (changes ++ [.setAll level])).level rule.info = level) ∧
    ∀ category level, rule.info.category ≠ category →
      (config.change registry (changes ++ [.setCategory category level])).level rule.info =
        (config.change registry changes).level rule.info := by
  obtain ⟨h, _⟩ := Registry.consistent_of_ofRules hregistry
  refine ⟨level_change h hrule config hkeys changes, fun level => ?_,
    fun category level hother => ?_⟩
  · rw [level_change h hrule config hkeys, levelIn, ← List.append_assoc, List.filterMap_append]
    simp [Change.byCode?]
  · rw [level_change h hrule config hkeys, level_change h hrule config hkeys, levelIn, levelIn,
      ← List.append_assoc, List.filterMap_append, List.filterMap_append]
    simp [Change.byCode?, Change.byName?, hother]

/-- A rule that is denied by name, then set to a warning with its category, and then allowed by
name again is at a warning, as the change to the category is the only one by code. -/
theorem level_after_category_change :
    Registry.ofRules Catalog.rules = .ok Registry.reference ∧
    Catalog.camelCaseNaming ∈ Registry.reference.rules ∧
    (({ levels := [("camel-case-naming", .deny), ("nobody", .deny)] } : Configuration).change
      Registry.reference [.setCategory .style .warn, .set "camel-case-naming" .allow]).level
        Catalog.camelCaseNamingInfo = .warn := by
  have hregistry : Registry.ofRules Catalog.rules = .ok Registry.reference := rfl
  refine ⟨hregistry, Registry.camelCaseNaming_mem_reference, ?_⟩
  exact (level_after_history Catalog.rules Registry.reference hregistry _ (by decide) _
    Catalog.camelCaseNaming Registry.camelCaseNaming_mem_reference).1.trans (by decide)

end Configuration

end TreeLint
