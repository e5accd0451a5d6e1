import Mathlib.Data.List.Nodup
import Mathlib.Data.List.Pairwise
import TreeLint.Rule.Registry

/-!
# Registries built by registration

A registry holds its rules three times: as a list, by kind and by identifier. Registration keeps
the three in step. In a registry that was built by registering rules one after the other, the rules
for a kind are those of the list that inspect it, in order; an identifier leads to the one rule
that is called so; and no two rules share an identifier, be it a code or a name. Rules can be
registered together exactly when each inspects some kind and no two share an identifier, so every
sublist of registered rules can be registered too.
-/

namespace TreeLint

/-- Whether an identifier is the code or the name of a rule. -/
def RuleInfo.IsCalled (info : RuleInfo) (identifier : String) : Prop :=
  info.code = identifier ∨ info.name = identifier

instance (info : RuleInfo) (identifier : String) : Decidable (info.IsCalled identifier) :=
  inferInstanceAs (Decidable (info.code = identifier ∨ info.name = identifier))

/-- Two rules that share no identifier, neither their codes and names nor one's code with the
other's name. -/
def Rule.Apart (rule other : Rule) : Prop :=
  ∀ identifier, rule.info.IsCalled identifier → ¬ other.info.IsCalled identifier

/-- A rule is called by its code. -/
theorem RuleInfo.isCalled_code (info : RuleInfo) : info.IsCalled info.code :=
  .inl rfl

/-- A rule is called by its name. -/
theorem RuleInfo.isCalled_name (info : RuleInfo) : info.IsCalled info.name :=
  .inr rfl

namespace Registry

/-- The two indexes of a registry tell the same as its list, and no identifier is used twice. -/
structure Consistent (registry : Registry) : Prop where
  apart : registry.rules.Pairwise Rule.Apart
  rulesFor_eq : ∀ kind, registry.rulesFor kind = registry.rules.filter (·.inspects kind)
  get?_eq_some_iff : ∀ identifier rule,
    registry.get? identifier = some rule ↔ rule ∈ registry.rules ∧ rule.info.IsCalled identifier

/-- The registry without rules is consistent. -/
theorem consistent_empty : empty.Consistent where
  apart := .nil
  rulesFor_eq _ := rfl
  get?_eq_some_iff identifier rule := by simp [empty, get?, Table.get?]

/-- An identifier leads to no rule exactly when no rule is called so. -/
theorem Consistent.get?_eq_none_iff {registry : Registry} (h : registry.Consistent)
    {identifier : String} :
    registry.get? identifier = none ↔ ∀ rule ∈ registry.rules, ¬ rule.info.IsCalled identifier := by
  rw [Option.eq_none_iff_forall_ne_some]
  constructor
  · intro hnone rule hrule hcalled
    exact hnone rule ((h.get?_eq_some_iff identifier rule).mpr ⟨hrule, hcalled⟩)
  · intro hnot rule hsome
    obtain ⟨hrule, hcalled⟩ := (h.get?_eq_some_iff identifier rule).mp hsome
    exact hnot rule hrule hcalled

/-- A rule is registered exactly when it inspects some kind and neither its code nor its name leads
to a rule yet; the list and the indexes are then extended. -/
theorem register_eq_ok_iff {registry next : Registry} {rule : Rule} :
    registry.register rule = .ok next ↔
      rule.kinds ≠ [] ∧ registry.get? rule.info.code = none ∧
      registry.get? rule.info.name = none ∧
      next = ⟨registry.rules ++ [rule],
        (Kind.all.filter rule.inspects).foldl (indexKind rule) registry.byKind,
        (registry.byId.set rule.info.code rule).set rule.info.name rule⟩ := by
  have hhas (identifier : String) :
      registry.has identifier = true ↔ registry.get? identifier ≠ none :=
    Option.isSome_iff_ne_none
  unfold register
  by_cases hkinds : rule.kinds = []
  · simp [hkinds]
  · by_cases hcode : registry.get? rule.info.code = none
    · by_cases hname : registry.get? rule.info.name = none
      · simp only [List.isEmpty_iff, hkinds, hhas, hcode, hname, ne_eq, not_true_eq_false,
          not_false_eq_true, if_false, true_and, Except.ok.injEq]
        exact eq_comm
      · simp [hkinds, hhas, hcode, hname]
    · simp [hkinds, hhas, hcode]

/-- Indexing a rule under distinct kinds adds it at the end of the lists of these kinds. -/
theorem getD_get?_foldl_indexKind (rule : Rule) (kinds : List Kind) (hnodup : kinds.Nodup)
    (index : Table Kind (List Rule)) (kind : Kind) :
    ((kinds.foldl (indexKind rule) index).get? kind).getD [] =
      (index.get? kind).getD [] ++ if kind ∈ kinds then [rule] else [] := by
  induction kinds generalizing index with
  | nil => simp
  | cons first rest ih =>
    obtain ⟨hfirst, hrest⟩ := List.nodup_cons.mp hnodup
    rw [List.foldl_cons, ih hrest]
    by_cases hkind : kind = first
    · subst hkind
      simp [indexKind, hfirst]
    · rw [indexKind, Table.get?_set_of_ne _ _ hkind]
      simp [hkind]

/-- Registration keeps a registry consistent. -/
theorem Consistent.of_register {registry next : Registry} {rule : Rule} (h : registry.Consistent)
    (hregister : registry.register rule = .ok next) : next.Consistent := by
  obtain ⟨_, hcode, hname, rfl⟩ := register_eq_ok_iff.mp hregister
  have hcode := h.get?_eq_none_iff.mp hcode
  have hname := h.get?_eq_none_iff.mp hname
  have happart : ∀ other ∈ registry.rules, other.Apart rule := by
    intro other hother identifier hcalled hrule
    rcases hrule with rfl | rfl
    · exact hcode other hother hcalled
    · exact hname other hother hcalled
  refine ⟨?_, fun kind => ?_, fun identifier found => ?_⟩
  · exact List.pairwise_append.mpr ⟨h.apart, List.pairwise_singleton _ _,
      fun other hother _ hrule => List.mem_singleton.mp hrule ▸ happart other hother⟩
  · have hkinds : (Kind.all.filter rule.inspects).Nodup := List.Nodup.filter _ (by decide)
    have hold : (registry.byKind.get? kind).getD [] = registry.rules.filter (·.inspects kind) :=
      h.rulesFor_eq kind
    change ((List.foldl (indexKind rule) registry.byKind _).get? kind).getD [] = _
    rw [getD_get?_foldl_indexKind _ _ hkinds, hold, List.filter_append]
    by_cases hinspects : rule.inspects kind <;> simp [hinspects, Kind.mem_all]
  · change ((registry.byId.set _ rule).set _ rule).get? identifier = some found ↔ _
    by_cases hcalled : rule.info.IsCalled identifier
    · have hget : ((registry.byId.set rule.info.code rule).set rule.info.name rule).get?
          identifier = some rule := by
        rcases hcalled with rfl | rfl
        · by_cases hsame : rule.info.code = rule.info.name
          · rw [hsame, Table.get?_set_self]
          · rw [Table.get?_set_of_ne _ _ hsame, Table.get?_set_self]
        · rw [Table.get?_set_self]
      rw [hget, Option.some.injEq, List.mem_append, List.mem_singleton]
      refine ⟨fun hsame => ⟨.inr hsame.symm, hsame ▸ hcalled⟩, fun hfound => ?_⟩
      obtain ⟨hfound | rfl, hother⟩ := hfound
      · exact absurd hcalled (happart found hfound identifier hother)
      · rfl
    · obtain ⟨hcode, hname⟩ := not_or.mp hcalled
      rw [Table.get?_set_of_ne _ _ (Ne.symm hname), Table.get?_set_of_ne _ _ (Ne.symm hcode),
        List.mem_append, List.mem_singleton]
      refine (h.get?_eq_some_iff identifier found).trans ⟨fun hfound => ⟨.inl hfound.1, hfound.2⟩, ?_⟩
      intro hfound
      obtain ⟨hfound | rfl, hother⟩ := hfound
      · exact ⟨hfound, hother⟩
      · exact absurd hother hcalled

/-- Registering several rules is registering the first and then the others. -/
theorem foldlM_register_cons_iff {start registry : Registry} {rule : Rule} {rest : List Rule} :
    (rule :: rest).foldlM register start = .ok registry ↔
      ∃ next, start.register rule = .ok next ∧ rest.foldlM register next = .ok registry := by
  rw [List.foldlM_cons]
  cases start.register rule with
  | error e =>
    constructor
    · intro h
      cases h
    · intro h
      obtain ⟨next, hnext, _⟩ := h
      cases hnext
  | ok next =>
    refine ⟨fun h => ⟨next, rfl, h⟩, fun h => ?_⟩
    obtain ⟨_, hnext, hrest⟩ := h
    cases hnext
    exact hrest

/-- Registering rules one after the other keeps a registry consistent and extends its list. -/
theorem Consistent.foldlM_register {start registry : Registry} {rules : List Rule}
    (h : start.Consistent) (hrules : rules.foldlM register start = .ok registry) :
    registry.Consistent ∧ registry.rules = start.rules ++ rules := by
  induction rules generalizing start with
  | nil =>
    cases hrules
    simpa using h
  | cons rule rest ih =>
    obtain ⟨next, hregister, hrest⟩ := foldlM_register_cons_iff.mp hrules
    obtain ⟨hconsistent, hlist⟩ := ih (h.of_register hregister) hrest
    rw [rules_of_register hregister, List.append_assoc] at hlist
    exact ⟨hconsistent, hlist⟩

/-- A registry built from rules is consistent and lists these rules. -/
theorem consistent_of_ofRules {rules : List Rule} {registry : Registry}
    (h : ofRules rules = .ok registry) : registry.Consistent ∧ registry.rules = rules :=
  consistent_empty.foldlM_register h

/-- The registry of the reference rules is consistent and lists these rules. -/
theorem consistent_reference :
    reference.Consistent ∧ reference.rules = Catalog.rules := by
  have hrules : ofRules Catalog.rules = .ok reference := rfl
  exact consistent_of_ofRules hrules

/-- The naming rule is one of the reference rules. -/
theorem camelCaseNaming_mem_reference : Catalog.camelCaseNaming ∈ reference.rules := by
  rw [consistent_reference.2]
  simp [Catalog.rules]

/-- Rules can be registered after those of a consistent registry if each inspects some kind and no
two of all these rules share an identifier. -/
theorem Consistent.exists_foldlM_register {start : Registry} {rules : List Rule}
    (h : start.Consistent) (hkinds : ∀ rule ∈ rules, rule.kinds ≠ [])
    (happart : (start.rules ++ rules).Pairwise Rule.Apart) :
    ∃ registry, rules.foldlM register start = .ok registry := by
  induction rules generalizing start with
  | nil => exact ⟨start, rfl⟩
  | cons rule rest ih =>
    have hfree (identifier : String) (hcalled : rule.info.IsCalled identifier) :
        start.get? identifier = none := by
      apply h.get?_eq_none_iff.mpr
      intro other hother hother'
      exact (List.pairwise_append.mp happart).2.2 other hother rule List.mem_cons_self identifier
        hother' hcalled
    have hregister := register_eq_ok_iff.mpr ⟨hkinds rule List.mem_cons_self,
      hfree _ rule.info.isCalled_code, hfree _ rule.info.isCalled_name, rfl⟩
    obtain ⟨registry, hrest⟩ := ih (h.of_register hregister)
      (fun other hother => hkinds other (List.mem_cons_of_mem _ hother)) (by simpa using happart)
    exact ⟨registry, foldlM_register_cons_iff.mpr ⟨_, hregister, hrest⟩⟩

/-- The rules of a registry built by registration each inspect some kind. -/
theorem kinds_ne_nil_of_foldlM_register {start registry : Registry} {rules : List Rule}
    (h : rules.foldlM register start = .ok registry) : ∀ rule ∈ rules, rule.kinds ≠ [] := by
  induction rules generalizing start with
  | nil => simp
  | cons rule rest ih =>
    obtain ⟨next, hregister, hrest⟩ := foldlM_register_cons_iff.mp h
    intro other hother
    rcases List.mem_cons.mp hother with rfl | hother
    · exact (register_eq_ok_iff.mp hregister).1
    · exact ih hrest other hother

/-- Rules can be registered together exactly when each inspects some kind and no two share an
identifier. -/
theorem exists_ofRules_iff {rules : List Rule} :
    (∃ registry, ofRules rules = .ok registry) ↔
      (∀ rule ∈ rules, rule.kinds ≠ []) ∧ rules.Pairwise Rule.Apart := by
  constructor
  · intro h
    obtain ⟨registry, h⟩ := h
    obtain ⟨hconsistent, hlist⟩ := consistent_of_ofRules h
    exact ⟨kinds_ne_nil_of_foldlM_register h, hlist ▸ hconsistent.apart⟩
  · intro h
    obtain ⟨hkinds, happart⟩ := h
    exact consistent_empty.exists_foldlM_register hkinds happart

end Registry

end TreeLint
