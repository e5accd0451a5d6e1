import Mathlib.Data.List.Induction
import TreeLint.Proofs.Rule.Registry

/-!
# Runs of registrations

A registry is changed in place by the calls that register rules. A call makes its checks first and
then writes to the list, to the index by identifier and to the index by kind, one write after the
other. The state that it leaves is therefore the one that the pure registration returns, or, if the
rule is refused, the one that it found. Over any run of calls, accepted and refused, the list and
the two indexes tell the same.
-/

namespace TreeLint.Registry

/-- Refuse an identifier that some rule has. -/
def demandFree (identifier : String) : EStateM RegistryError Registry PUnit := do
  if (← get).has identifier then throw (.taken identifier)

/-- Add a rule to the list of a kind that it inspects. -/
def indexInPlace (rule : Rule) (kind : Kind) : EStateM RegistryError Registry PUnit := do
  if rule.inspects kind then
    modify fun registry => { registry with byKind := indexKind rule registry.byKind kind }

/-- Register a rule in place: the checks in order, then the writes in order. -/
def registerInPlace (rule : Rule) : EStateM RegistryError Registry PUnit := do
  if rule.kinds.isEmpty then throw (.noKinds rule.info.code)
  demandFree rule.info.code
  demandFree rule.info.name
  modify fun registry => { registry with rules := registry.rules ++ [rule] }
  modify fun registry => { registry with byId := registry.byId.set rule.info.code rule }
  modify fun registry => { registry with byId := registry.byId.set rule.info.name rule }
  Kind.all.forM (indexInPlace rule)

/-- Going through some kinds writes to the index by kind only. -/
theorem forM_indexInPlace (rule : Rule) (kinds : List Kind) (registry : Registry) :
    kinds.forM (indexInPlace rule) registry = .ok ⟨⟩ { registry with
      byKind := (kinds.filter rule.inspects).foldl (indexKind rule) registry.byKind } := by
  induction kinds generalizing registry with
  | nil => rfl
  | cons kind rest ih =>
    change (indexInPlace rule kind >>= fun _ => rest.forM (indexInPlace rule)) registry = _
    by_cases hkind : rule.inspects kind
    · have hwrite : indexInPlace rule kind registry =
          .ok ⟨⟩ { registry with byKind := indexKind rule registry.byKind kind } := by
        simp only [indexInPlace, hkind, if_true]
        rfl
      simp only [bind, EStateM.bind, hwrite, ih, List.filter_cons_of_pos hkind, List.foldl_cons]
    · have hskip : indexInPlace rule kind registry = .ok ⟨⟩ registry := by
        simp only [indexInPlace, hkind, Bool.false_eq_true, if_false]
        rfl
      simp only [bind, EStateM.bind, hskip, ih, List.filter_cons_of_neg hkind]

/-- An identifier that some rule has is refused, and any other passes. -/
theorem demandFree_eq (identifier : String) (registry : Registry) :
    demandFree identifier registry =
      if registry.has identifier then .error (.taken identifier) registry
      else .ok ⟨⟩ registry := by
  change (if registry.has identifier then throw (.taken identifier) else pure ⟨⟩ :
    EStateM RegistryError Registry PUnit) registry = _
  split <;> rfl

/-- A call leaves the registry that registration returns, and a refused call has written
nothing. -/
theorem registerInPlace_eq (rule : Rule) (registry : Registry) :
    registerInPlace rule registry =
      match registry.register rule with
      | .ok next => .ok ⟨⟩ next
      | .error e => .error e registry := by
  unfold registerInPlace register
  by_cases hkinds : rule.kinds.isEmpty
  · simp only [hkinds, if_true]
    rfl
  · simp only [hkinds, Bool.false_eq_true, if_false]
    by_cases hcode : registry.has rule.info.code
    · simp only [bind, EStateM.bind, demandFree_eq, hcode, if_true]
    · by_cases hname : registry.has rule.info.name
      · simp only [bind, EStateM.bind, demandFree_eq, hcode, hname, if_true, Bool.false_eq_true,
          if_false]
      · simp only [bind, EStateM.bind, demandFree_eq, hcode, hname, Bool.false_eq_true, if_false]
        exact forM_indexInPlace rule Kind.all _

/-- The registry that a call leaves, be the rule accepted or refused. -/
def afterCall (registry : Registry) (rule : Rule) : Registry :=
  match registerInPlace rule registry with
  | .ok _ next => next
  | .error _ left => left

/-- The registry after a run of calls on the one without rules. -/
def afterCalls (calls : List Rule) : Registry :=
  calls.foldl afterCall empty

/-- What holds without rules and is kept by registration holds after every run of calls. -/
theorem afterCalls_induction {motive : Registry → Prop} (hempty : motive empty)
    (hregister : ∀ registry rule next, motive registry → registry.register rule = .ok next →
      motive next) (calls : List Rule) : motive (afterCalls calls) := by
  induction calls using List.reverseRecOn with
  | nil => exact hempty
  | append_singleton calls rule ih =>
    rw [afterCalls, List.foldl_append, List.foldl_cons, List.foldl_nil]
    change motive (afterCall (afterCalls calls) rule)
    rw [afterCall, registerInPlace_eq]
    cases hcall : (afterCalls calls).register rule with
    | error e => exact ih
    | ok next => exact hregister _ rule next ih hcall

/-- After a run of calls the list and the indexes of a registry tell the same. -/
theorem consistent_afterCalls (calls : List Rule) : (afterCalls calls).Consistent :=
  afterCalls_induction consistent_empty (fun _ _ _ h => h.of_register) calls

/-- The keys of the index by kind are the kinds that rules inspect, each once. -/
structure ListsKinds (registry : Registry) : Prop where
  nodup : registry.kinds.Nodup
  mem_iff : ∀ kind, kind ∈ registry.kinds ↔ ∃ rule ∈ registry.rules, kind ∈ rule.kinds

/-- Indexing a rule under some kinds adds these kinds to the keys. -/
theorem keys_foldl_indexKind (rule : Rule) (kinds : List Kind) (index : Table Kind (List Rule))
    (hindex : index.keys.Nodup) :
    (kinds.foldl (indexKind rule) index).keys.Nodup ∧
      ∀ kind, kind ∈ (kinds.foldl (indexKind rule) index).keys ↔
        kind ∈ index.keys ∨ kind ∈ kinds := by
  induction kinds generalizing index with
  | nil => simp [hindex]
  | cons first rest ih =>
    obtain ⟨hnodup, hmem⟩ := ih (indexKind rule index first) (Table.nodup_keys_set hindex _ _)
    refine ⟨hnodup, fun kind => ?_⟩
    rw [List.foldl_cons, hmem, indexKind, Table.mem_keys_set_iff, List.mem_cons, or_assoc]

/-- Registration keeps the keys of the index by kind. -/
theorem ListsKinds.of_register {registry next : Registry} {rule : Rule} (h : registry.ListsKinds)
    (hregister : registry.register rule = .ok next) : next.ListsKinds := by
  obtain ⟨_, _, _, rfl⟩ := register_eq_ok_iff.mp hregister
  obtain ⟨hnodup, hmem⟩ :=
    keys_foldl_indexKind rule (Kind.all.filter rule.inspects) registry.byKind h.nodup
  refine ⟨hnodup, fun kind => ?_⟩
  have hold : kind ∈ registry.byKind.keys ↔ ∃ other ∈ registry.rules, kind ∈ other.kinds :=
    h.mem_iff kind
  have hnew : kind ∈ Kind.all.filter rule.inspects ↔ kind ∈ rule.kinds := by
    simp [Kind.mem_all, Rule.inspects]
  refine (hmem kind).trans ?_
  simp only [hold, hnew, List.mem_append, List.mem_singleton, or_and_right, exists_or,
    exists_eq_left]

/-- After a run of calls the index by kind has the kinds of the rules as keys. -/
theorem listsKinds_afterCalls (calls : List Rule) : (afterCalls calls).ListsKinds := by
  refine afterCalls_induction ⟨List.nodup_nil, fun kind => ?_⟩ (fun _ _ _ h => h.of_register) calls
  simp [empty, kinds, Table.keys]

/-- Registration fails exactly for a rule that inspects no kind and for one that shares an
identifier with a registered rule. -/
theorem Consistent.register_fails_iff {registry : Registry} (h : registry.Consistent)
    (rule : Rule) : (∃ e, registry.register rule = .error e) ↔
      rule.kinds = [] ∨ ∃ other ∈ registry.rules,
        other.info.IsCalled rule.info.code ∨ other.info.IsCalled rule.info.name := by
  have hok : (∃ next, registry.register rule = .ok next) ↔ rule.kinds ≠ [] ∧
      ∀ other ∈ registry.rules,
        ¬ other.info.IsCalled rule.info.code ∧ ¬ other.info.IsCalled rule.info.name := by
    simp only [register_eq_ok_iff, h.get?_eq_none_iff, exists_and_left, exists_eq, and_true,
      ← forall_and]
  have herror : (∃ e, registry.register rule = .error e) ↔
      ¬ ∃ next, registry.register rule = .ok next := by
    cases registry.register rule <;> simp
  rw [herror, hok]
  grind

/-- After every run of calls that register rules, accepted and refused ones: no two rules share an
identifier, an identifier leads to the rule that is called so, the rules for a kind are those of the
list that inspect it, and the kinds are those that rules inspect. The next call fails exactly for a
rule that inspects no kind or whose code or name is in use. A call that fails leaves the registry as
it was, and any other leaves the registry that has the rule at the end. -/
theorem registry_after_any_calls (calls : List Rule) :
    let registry := afterCalls calls
    registry.rules.Pairwise Rule.Apart ∧
    (∀ identifier rule, registry.get? identifier = some rule ↔
      rule ∈ registry.rules ∧ rule.info.IsCalled identifier) ∧
    (∀ kind, registry.rulesFor kind = registry.rules.filter (kind ∈ ·.kinds)) ∧
    registry.kinds.Nodup ∧
    (∀ kind, kind ∈ registry.kinds ↔ ∃ rule ∈ registry.rules, kind ∈ rule.kinds) ∧
    ∀ rule,
      ((∃ e, registry.register rule = .error e) ↔
        rule.kinds = [] ∨ ∃ other ∈ registry.rules,
          other.info.IsCalled rule.info.code ∨ other.info.IsCalled rule.info.name) ∧
      (∀ e, registry.register rule = .error e →
        registerInPlace rule registry = .error e registry) ∧
      ∀ next, registry.register rule = .ok next →
        registerInPlace rule registry = .ok ⟨⟩ next ∧ next.rules = registry.rules ++ [rule] := by
  intro registry
  have hconsistent : registry.Consistent := consistent_afterCalls calls
  have hkinds : registry.ListsKinds := listsKinds_afterCalls calls
  refine ⟨hconsistent.apart, hconsistent.get?_eq_some_iff, fun kind => ?_, hkinds.nodup,
    hkinds.mem_iff, fun rule => ⟨hconsistent.register_fails_iff rule, fun e hcall => ?_,
      fun next hcall => ⟨?_, rules_of_register hcall⟩⟩⟩
  · rw [hconsistent.rulesFor_eq]
    apply List.filter_congr
    intro rule _
    exact List.contains_eq_mem kind rule.kinds
  · rw [registerInPlace_eq, hcall]
  · rw [registerInPlace_eq, hcall]

end TreeLint.Registry
