import Mathlib.Data.Int.Basic
import Mathlib.Data.List.Nodup
import Mathlib.Data.List.Perm.Basic
import Mathlib.Order.Bounds.Basic
import TreeLint.Tree.Document

/-!
# Numbers of nodes

A node without a number gets the first natural number, from where the last search ended, that no
node before it carries. The search looks at as many numbers as are in use, which is enough: each
number in use that it passes lies behind it from then on. As all numbers below the start of the
search are in use, the number found is the least that is free.

What numbers a list of nodes carries is told from the numbers that are written alone: these are
kept, and each missing one is the least natural number that no node before carries. The nodes can be
numbered so exactly when no written number is carried by a node before, written there or not.
-/

namespace TreeLint

namespace IdPool

/-- Fewer numbers in use lie behind a number in use than from it on. -/
theorem countP_succ_lt {used : List Int} {n : Nat} (h : (n : Int) ∈ used) :
    used.countP (fun id => decide (((n + 1 : Nat) : Int) ≤ id)) <
      used.countP (fun id => decide ((n : Int) ≤ id)) := by
  have hperm := List.perm_cons_erase h
  have hnot : ¬ ((n + 1 : Nat) : Int) ≤ n := by omega
  rw [hperm.countP_eq, hperm.countP_eq, List.countP_cons, List.countP_cons, decide_eq_false hnot,
    decide_eq_true (Int.le_refl _), if_pos rfl, if_neg Bool.false_ne_true, Nat.add_zero]
  apply Nat.lt_succ_of_le
  apply List.countP_mono_left
  intro id _ hid
  have hid := of_decide_eq_true hid
  exact decide_eq_true (by omega)

/-- The search ends at a number that is not in use, given a step for each number in use from its
start on. -/
theorem search_not_mem {used : List Int} {steps n : Nat}
    (h : used.countP (fun id => decide ((n : Int) ≤ id)) ≤ steps) :
    (search used steps n : Int) ∉ used := by
  induction steps generalizing n with
  | zero =>
    intro hmem
    have hnone := List.countP_eq_zero.mp (Nat.le_zero.mp h) _ hmem
    exact hnone (decide_eq_true (Int.le_refl _))
  | succ steps ih =>
    unfold search
    split
    · next hmem =>
      have hlt := countP_succ_lt hmem
      exact ih (by omega)
    · next hmem => exact hmem

/-- The number given to a node is not in use, and is in use from then on. -/
theorem assign_spec {pool next : IdPool} {written : Option Int} {id : Int}
    (h : pool.assign written = .ok (id, next)) :
    id ∉ pool.used ∧ next.used = id :: pool.used := by
  cases written with
  | some n =>
    simp only [assign] at h
    split at h
    · cases h
    · next hfree =>
      cases h
      exact ⟨hfree, rfl⟩
  | none =>
    cases h
    exact ⟨search_not_mem List.countP_le_length, rfl⟩

/-- Only a written number can be refused, and only when it is in use. -/
theorem assign_eq_error_iff {pool : IdPool} {written : Option Int} {fault : DocumentFault} :
    pool.assign written = .error fault ↔
      ∃ id, written = some id ∧ id ∈ pool.used ∧ fault = .duplicateId id := by
  cases written with
  | none => simp [assign]
  | some n =>
    by_cases hmem : n ∈ pool.used
    · simp [assign, hmem, eq_comm]
    · simp [assign, hmem]

/-- The search passes numbers in use only. -/
theorem mem_of_lt_search {used : List Int} {steps n m : Nat} (hle : n ≤ m)
    (hlt : m < search used steps n) : (m : Int) ∈ used := by
  induction steps generalizing n with
  | zero => exact absurd hlt (Nat.not_lt.mpr hle)
  | succ steps ih =>
    unfold search at hlt
    split at hlt
    · next hmem =>
      rcases Nat.eq_or_lt_of_le hle with rfl | hnext
      · exact hmem
      · exact ih hnext hlt
    · exact absurd hlt (Nat.not_lt.mpr hle)

/-- A pool after nodes with the given numbers: these are in use, and all natural numbers below the
start of the search are among them. -/
structure Holds (pool : IdPool) (before : List Int) : Prop where
  used_eq : pool.used = before.reverse
  mem_of_lt_next : ∀ m < pool.next, (m : Int) ∈ before

/-- The number that a node carries after nodes with the given numbers: the written one, which must
be new, or the least natural number that is new. -/
def IsNext (before : List Int) : Option Int → Int → Prop
  | some written, id => id = written ∧ written ∉ before
  | none, id => ∃ n : ℕ, id = n ∧ IsLeast {m : ℕ | (m : Int) ∉ before} n

/-- The number that counts as carried by a node after nodes with the given numbers, be it new or
not: the written one, or the least natural number that is new. -/
def IsCarried (before : List Int) : Option Int → Int → Prop
  | some written, id => id = written
  | none, id => ∃ n : ℕ, id = n ∧ IsLeast {m : ℕ | (m : Int) ∉ before} n

/-- The number that a node carries is the one that counts as carried, where a written number is
new. -/
theorem isNext_iff {before : List Int} {first : Option Int} {id : Int} :
    IsNext before first id ↔
      IsCarried before first id ∧ ∀ number, first = some number → number ∉ before := by
  cases first <;> simp [IsNext, IsCarried]

/-- A node counts as carrying one number only. -/
theorem IsCarried.unique {before : List Int} {first : Option Int} {id other : Int}
    (h : IsCarried before first id) (hother : IsCarried before first other) : id = other := by
  cases first with
  | some number => exact h.trans hother.symm
  | none =>
    obtain ⟨n, rfl, hleast⟩ := h
    obtain ⟨m, rfl, hleast'⟩ := hother
    rw [hleast.unique hleast']

/-- No node carries the number of a node before. -/
theorem IsNext.not_mem {before : List Int} {first : Option Int} {id : Int}
    (h : IsNext before first id) : id ∉ before := by
  cases first with
  | some number =>
    obtain ⟨rfl, hnew⟩ := h
    exact hnew
  | none =>
    obtain ⟨n, rfl, hleast⟩ := h
    exact hleast.1

/-- The pool at the start of a document. -/
theorem holds_nil : Holds ⟨[], 0⟩ [] :=
  ⟨rfl, fun m hm => absurd hm (Nat.not_lt_zero m)⟩

/-- A search in a pool ends at the least natural number that no node before carries. -/
theorem Holds.isLeast_search {pool : IdPool} {before : List Int} (h : pool.Holds before) :
    IsLeast {m : ℕ | (m : Int) ∉ before} (search pool.used pool.used.length pool.next) := by
  have hfree : (search pool.used pool.used.length pool.next : Int) ∉ pool.used :=
    search_not_mem List.countP_le_length
  refine ⟨?_, fun m hm => ?_⟩
  · rwa [h.used_eq, List.mem_reverse, ← h.used_eq] at hfree
  · -- A smaller number lies before the start of the search or was passed by it.
    by_contra hlt
    by_cases hnext : m < pool.next
    · exact hm (h.mem_of_lt_next m hnext)
    · have hmem := mem_of_lt_search (Nat.not_lt.mp hnext) (Nat.not_le.mp hlt)
      rw [h.used_eq, List.mem_reverse] at hmem
      exact hm hmem

/-- Every node counts as carrying a number. -/
theorem exists_isCarried (before : List Int) (first : Option Int) :
    ∃ id, IsCarried before first id := by
  cases first with
  | some number => exact ⟨number, rfl⟩
  | none =>
    have hpool : Holds ⟨before.reverse, 0⟩ before :=
      ⟨rfl, fun m hm => absurd hm (Nat.not_lt_zero m)⟩
    exact ⟨_, _, rfl, hpool.isLeast_search⟩

/-- A pool gives a node the number that the node must carry. -/
theorem Holds.exists_assign_iff {pool : IdPool} {before : List Int} (h : pool.Holds before)
    {written : Option Int} {id : Int} :
    (∃ next, pool.assign written = .ok (id, next)) ↔ IsNext before written id := by
  cases written with
  | some n =>
    simp only [assign, h.used_eq, List.mem_reverse, IsNext]
    by_cases hmem : n ∈ before
    · simp [hmem]
    · simp [hmem, eq_comm]
  | none =>
    have hleast := h.isLeast_search
    simp only [assign, IsNext, Except.ok.injEq, Prod.mk.injEq, exists_and_left, exists_eq', and_true]
    constructor
    · intro hid
      exact ⟨_, hid.symm, hleast⟩
    · intro hid
      obtain ⟨n, rfl, hn⟩ := hid
      rw [hleast.unique hn]

/-- Numbering a node keeps a pool in step with the numbers that nodes carry. -/
theorem Holds.assign {pool next : IdPool} {before : List Int} {written : Option Int} {id : Int}
    (h : pool.Holds before) (hassign : pool.assign written = .ok (id, next)) :
    next.Holds (before ++ [id]) := by
  have hused : next.used = (before ++ [id]).reverse := by
    rw [(assign_spec hassign).2, h.used_eq, List.reverse_append, List.reverse_singleton,
      List.singleton_append]
  refine ⟨hused, fun m hm => List.mem_append_left _ ?_⟩
  cases written with
  | some n =>
    simp only [IdPool.assign] at hassign
    split at hassign
    · cases hassign
    · cases hassign
      exact h.mem_of_lt_next m hm
  | none =>
    cases hassign
    by_contra hfree
    exact absurd (h.isLeast_search.2 hfree) (Nat.not_le.mpr hm)

end IdPool

namespace Document

/-- The numbers that nodes carry after nodes with the given numbers: a written number is kept, and
a missing one is the least natural number that no node before carries. -/
structure Numbered (before : List Int) (written : List (Option Int)) (ids : List Int) : Prop where
  length_eq : ids.length = written.length
  kept : ∀ (place : Nat) (id : Int), written[place]? = some (some id) → ids[place]? = some id
  least : ∀ place : Nat, written[place]? = some none → ∃ n : ℕ, ids[place]? = some (n : Int) ∧
    IsLeast {m : ℕ | (m : Int) ∉ before ++ ids.take place} n

/-- Every written number differs from the numbers of all nodes before. -/
def Fresh (before : List Int) (written : List (Option Int)) (ids : List Int) : Prop :=
  ∀ (place : Nat) (id : Int), written[place]? = some (some id) → id ∉ before ++ ids.take place

/-- No number is written twice. -/
def Distinct (written : List (Option Int)) : Prop :=
  ∀ (place other : Nat) (id : Int), written[place]? = some (some id) →
    written[other]? = some (some id) → place = other

/-- No number is written after it was given to a node without one. -/
def Untaken (written : List (Option Int)) (ids : List Int) : Prop :=
  ∀ (place other : Nat) (id : Int), written[place]? = some none →
    written[other]? = some (some id) → place < other → ids[place]? ≠ some id

/-- The nodes before a place are those at smaller places. -/
theorem mem_take_iff {ids : List Int} {place : Nat} {id : Int} :
    id ∈ ids.take place ↔ ∃ other < place, ids[other]? = some id := by
  rw [List.mem_iff_getElem?]
  constructor
  · intro h
    obtain ⟨other, hother⟩ := h
    rw [List.getElem?_take] at hother
    split at hother
    · next hlt => exact ⟨other, hlt, hother⟩
    · cases hother
  · intro h
    obtain ⟨other, hlt, hother⟩ := h
    exact ⟨other, by rw [List.getElem?_take, if_pos hlt, hother]⟩

section Numbers

variable {before ids : List Int} {written : List (Option Int)}

/-- Among the nodes after the first, every place is one less, and the first is one of those
before. -/
theorem append_take_succ (before ids : List Int) (id : Int) (place : Nat) :
    before ++ (id :: ids).take (place + 1) = before ++ [id] ++ ids.take place := by
  rw [List.take_succ_cons, List.append_cons]

/-- Nodes are numbered exactly when the first is, and the others are after it. -/
theorem numbered_cons_iff {first : Option Int} {id : Int} :
    Numbered before (first :: written) (id :: ids) ↔
      IdPool.IsCarried before first id ∧ Numbered (before ++ [id]) written ids := by
  constructor
  · intro h
    refine ⟨?_, by simpa using h.length_eq, fun place other hplace => ?_, fun place hplace => ?_⟩
    · cases first with
      | some number =>
        have hkept := h.kept 0 number rfl
        simp only [List.getElem?_cons_zero, Option.some.injEq] at hkept
        exact hkept
      | none =>
        obtain ⟨n, hn, hleast⟩ := h.least 0 rfl
        simp only [List.getElem?_cons_zero, Option.some.injEq] at hn
        simp only [List.take_zero, List.append_nil] at hleast
        exact ⟨n, hn, hleast⟩
    · exact h.kept (place + 1) other hplace
    · have hleast := h.least (place + 1) hplace
      rw [append_take_succ] at hleast
      exact hleast
  · intro h
    obtain ⟨hcarried, hnumbered⟩ := h
    refine ⟨by simp [hnumbered.length_eq], fun place other hplace => ?_, fun place hplace => ?_⟩
    · cases place with
      | zero =>
        cases hplace
        rw [hcarried]
        rfl
      | succ place => exact hnumbered.kept place other hplace
    · cases place with
      | zero =>
        cases hplace
        obtain ⟨n, rfl, hleast⟩ := hcarried
        refine ⟨n, rfl, ?_⟩
        rwa [List.take_zero, List.append_nil]
      | succ place =>
        rw [append_take_succ]
        exact hnumbered.least place hplace

/-- Written numbers are new exactly when that of the first node is, and the others are after it. -/
theorem fresh_cons_iff {first : Option Int} {id : Int} :
    Fresh before (first :: written) (id :: ids) ↔
      (∀ number, first = some number → number ∉ before) ∧ Fresh (before ++ [id]) written ids := by
  constructor
  · intro h
    refine ⟨fun number hnumber => ?_, fun place other hplace => ?_⟩
    · have hnew := h 0 number (by rw [hnumber]; rfl)
      rwa [List.take_zero, List.append_nil] at hnew
    · have hnew := h (place + 1) other hplace
      rwa [append_take_succ] at hnew
  · intro h place other hplace
    obtain ⟨hnew, hfresh⟩ := h
    cases place with
    | zero =>
      rw [List.take_zero, List.append_nil]
      exact hnew other (Option.some.inj hplace)
    | succ place =>
      rw [append_take_succ]
      exact hfresh place other hplace

/-- Nodes are numbered afresh exactly when the first is, and the others are after it. -/
theorem numbered_fresh_cons_iff {first : Option Int} {id : Int} :
    Numbered before (first :: written) (id :: ids) ∧ Fresh before (first :: written) (id :: ids) ↔
      IdPool.IsNext before first id ∧
        Numbered (before ++ [id]) written ids ∧ Fresh (before ++ [id]) written ids := by
  rw [numbered_cons_iff, fresh_cons_iff, IdPool.isNext_iff, and_and_and_comm]

/-- Every list of nodes can be numbered, afresh or not. -/
theorem exists_numbered (before : List Int) (written : List (Option Int)) :
    ∃ ids, Numbered before written ids := by
  induction written generalizing before with
  | nil => exact ⟨[], rfl, by simp, by simp⟩
  | cons first written ih =>
    obtain ⟨id, hcarried⟩ := IdPool.exists_isCarried before first
    obtain ⟨ids, hnumbered⟩ := ih (before ++ [id])
    exact ⟨id :: ids, numbered_cons_iff.mpr ⟨hcarried, hnumbered⟩⟩

/-- Nodes that are numbered afresh carry distinct numbers. -/
theorem Numbered.nodup (h : Numbered before written ids) (hfresh : Fresh before written ids)
    (hbefore : before.Nodup) : (before ++ ids).Nodup := by
  induction written generalizing before ids with
  | nil =>
    rw [List.eq_nil_of_length_eq_zero h.length_eq, List.append_nil]
    exact hbefore
  | cons first written ih =>
    cases ids with
    | nil => cases h.length_eq
    | cons id ids =>
      obtain ⟨hnext, hrest, hfresh⟩ := numbered_fresh_cons_iff.mp ⟨h, hfresh⟩
      rw [List.append_cons]
      apply ih hrest hfresh
      refine List.nodup_append.mpr ⟨hbefore, List.nodup_singleton id, fun other hother _ hid => ?_⟩
      rw [List.mem_singleton.mp hid]
      exact ne_of_mem_of_not_mem hother hnext.not_mem

/-- Missing numbers are given in increasing order. -/
theorem Numbered.lt_of_lt (h : Numbered [] written ids) {place other : Nat} {m n : ℕ}
    (hlt : place < other) (hplace : written[place]? = some none)
    (hother : written[other]? = some none) (hm : ids[place]? = some (m : Int))
    (hn : ids[other]? = some (n : Int)) : m < n := by
  obtain ⟨m', hm', hleast⟩ := h.least place hplace
  obtain ⟨n', hn', hleast'⟩ := h.least other hother
  cases Int.ofNat.inj (Option.some.inj (hm.symm.trans hm'))
  cases Int.ofNat.inj (Option.some.inj (hn.symm.trans hn'))
  have hmem : (m : Int) ∈ ids.take other := mem_take_iff.mpr ⟨place, hlt, hm⟩
  have hfree : (n : Int) ∉ ids.take other := hleast'.1
  -- What is free for the later node was free for the earlier one.
  have hle : m ≤ n := by
    apply hleast.2
    intro hearlier
    obtain ⟨earlier, hbefore, hid⟩ := mem_take_iff.mp hearlier
    exact hfree (mem_take_iff.mpr ⟨earlier, Nat.lt_trans hbefore hlt, hid⟩)
  have hne : m ≠ n := fun heq => hfree (heq ▸ hmem)
  exact Nat.lt_of_le_of_ne hle hne

/-- Written numbers differ from those of all nodes before exactly when no number is written twice,
and none is written after it was given to a node without one. -/
theorem Numbered.fresh_iff (h : Numbered [] written ids) :
    Fresh [] written ids ↔ Distinct written ∧ Untaken written ids := by
  constructor
  · intro hfresh
    have hnew {place other : Nat} {id : Int} (hlt : place < other)
        (hother : written[other]? = some (some id)) : ids[place]? ≠ some id :=
      fun hid => hfresh other id hother (mem_take_iff.mpr ⟨place, hlt, hid⟩)
    refine ⟨fun place other id hplace hother => ?_, fun place other id _ hother hlt =>
      hnew hlt hother⟩
    rcases Nat.lt_trichotomy place other with hlt | heq | hlt
    · exact absurd (h.kept place id hplace) (hnew hlt hother)
    · exact heq
    · exact absurd (h.kept other id hother) (hnew hlt hplace)
  · intro hconds other id hother hmem
    obtain ⟨hdistinct, huntaken⟩ := hconds
    obtain ⟨place, hlt, hid⟩ := mem_take_iff.mp hmem
    have hplace : place < written.length := by
      rw [← h.length_eq]
      exact (List.getElem?_eq_some_iff.mp hid).1
    cases hwritten : written[place] with
    | none =>
      have hnone := List.getElem?_eq_some_iff.mpr ⟨hplace, hwritten⟩
      exact huntaken place other id hnone hother hlt hid
    | some number =>
      have hsome := List.getElem?_eq_some_iff.mpr ⟨hplace, hwritten⟩
      cases (h.kept place number hsome).symm.trans hid
      exact absurd (hdistinct place other id hsome hother) (Nat.ne_of_lt hlt)

end Numbers

end Document

end TreeLint
