import Mathlib.Data.Fintype.Card
import TreeLint.Proofs.Tree.Shape

/-!
# Walks with a visitor

A walk visits a node before it looks at the links of the node, and counts as it goes. It comes to
the same as listing the nodes first and handing them to the visitor one after the other: a refusal
of the visitor is found before any defect of the graph, since every node that is listed at all is
listed before the defect.

A walk ends without a defect exactly on trees, in recursive pre-order and with the number of nodes.
-/

namespace TreeLint

/-- Hand items to a visitor one after the other until it refuses. -/
def visitAll {ι σ ε : Type} (visit : σ → ι → σ × Option ε) (state : σ) : List ι → σ × Option ε
  | [] => (state, none)
  | item :: rest =>
    match visit state item with
    | (state, some reason) => (state, some reason)
    | (state, none) => visitAll visit state rest

/-- A visitor that never refuses sees every item. -/
theorem visitAll_snd_eq_none {ι σ ε : Type} {visit : σ → ι → σ × Option ε}
    (h : ∀ state item, (visit state item).2 = none) (state : σ) (items : List ι) :
    (visitAll visit state items).2 = none := by
  induction items generalizing state with
  | nil => rfl
  | cons item rest ih =>
    have hvisit : visit state item = ((visit state item).1, none) := Prod.ext rfl (h state item)
    rw [visitAll, hvisit]
    exact ih _

/-- A visitor that looks at what items stand for visits what they stand for. -/
theorem visitAll_map {ι κ σ ε : Type} (f : ι → κ) (visit : σ → κ → σ × Option ε) (state : σ)
    (items : List ι) :
    visitAll visit state (items.map f) = visitAll (fun state i => visit state (f i)) state items := by
  induction items generalizing state with
  | nil => rfl
  | cons item rest ih =>
    simp only [List.map_cons, visitAll, ih]

namespace Graph

variable {g : Graph} {σ ε : Type}

/-- The end of a walk whose nodes have been handed to the visitor. -/
def Walked.ofVisits (count : Nat) (defect : Option Malformed) : σ × Option ε → Walked σ ε
  | (state, some reason) => ⟨state, .error (.visitor reason)⟩
  | (state, none) =>
    match defect with
    | some defect => ⟨state, .error (.malformed defect)⟩
    | none => ⟨state, .ok count⟩

/-- Walking on from a stack is handing the nodes met to the visitor. -/
theorem walkFrom_eq_visitAll (visit : σ → Fin g.size → σ × Option ε)
    (fresh stack : List (Fin g.size)) (count : Nat) (state : σ) :
    g.walkFrom visit fresh stack count state =
      .ofVisits (count + (g.traceFrom fresh stack).1.length) (g.traceFrom fresh stack).2
        (visitAll visit state (g.traceFrom fresh stack).1) := by
  fun_induction walkFrom g visit fresh stack count state with
  | case1 => simp [traceFrom, visitAll, Walked.ofVisits]
  | case2 fresh count state i rest hi next reason hvisit =>
    -- The visitor refuses the first node, whatever comes after it.
    rw [traceFrom, dif_pos hi]
    cases Link.nodes (g.links i) <;> simp [visitAll, hvisit, Walked.ofVisits]
  | case3 fresh count state i rest hi next hvisit value hlinks =>
    simp [traceFrom, hi, hlinks, visitAll, hvisit, Walked.ofVisits]
  | case4 fresh count state i rest hi next hvisit below hlinks _ ih =>
    rw [ih, traceFrom, dif_pos hi]
    simp only [hlinks, visitAll, hvisit, List.length_cons]
    rw [Nat.add_assoc, Nat.add_comm 1]
  | case5 fresh count state i rest hi => simp [traceFrom, hi, visitAll, Walked.ofVisits]

/-- A walk from a root is handing the nodes met to the visitor. -/
theorem walk_eq_visitAll (root : Link g.size) (visit : σ → Fin g.size → σ × Option ε)
    (state : σ) :
    g.walk root visit state =
      .ofVisits (g.trace root).1.length (g.trace root).2
        (visitAll visit state (g.trace root).1) := by
  unfold walk trace
  cases start root with
  | ok i => simp only [walkFrom_eq_visitAll, Nat.zero_add]
  | error defect => rfl

/-- With a visitor that never refuses, a walk ends as the list of its nodes does. -/
theorem walk_outcome_of_willing (root : Link g.size) {visit : σ → Fin g.size → σ × Option ε}
    (h : ∀ state i, (visit state i).2 = none) (state : σ) :
    (g.walk root visit state).outcome =
      match (g.trace root).2 with
      | some defect => .error (.malformed defect)
      | none => .ok (g.trace root).1.length := by
  rw [walk_eq_visitAll]
  have hvisits := visitAll_snd_eq_none h state (g.trace root).1
  generalize visitAll visit state (g.trace root).1 = visits at hvisits
  obtain ⟨final, refusal⟩ := visits
  cases hvisits
  cases (g.trace root).2 <;> rfl

/-- The nodes met from any root on are distinct, and below that root. -/
theorem trace_nodup (root : Link g.size) :
    (g.trace root).1.Nodup ∧ ∀ j ∈ (g.trace root).1, ∃ i, root = .node i ∧ g.Reach i j := by
  cases root with
  | stray value => cases value <;> simp [trace, start]
  | node i =>
    refine ⟨(traceFrom_nodup _ _ (List.nodup_finRange _)).1, fun j hj => ?_⟩
    obtain ⟨k, hk, hreach⟩ := reach_of_mem_traceFrom (List.finRange g.size) [i] j hj
    rw [List.mem_singleton] at hk
    exact ⟨i, rfl, hk ▸ hreach⟩

/-- A walk meets at most every node of the graph, and ends without a defect exactly when its root
is the root of a tree. It then meets the nodes below the root in recursive pre-order, each once,
and with a visitor that never refuses gives their number. Otherwise it ends with a defect, after
distinct nodes below the root. -/
theorem trace_defect_none_iff_tree (g : Graph) (root : Link g.size) :
    (g.trace root).1.length ≤ g.size ∧
    ((g.trace root).2 = none ↔ ∃ i, root = .node i ∧ g.IsTree i) ∧
    (∀ i, root = .node i → g.IsTree i →
      g.InPreorder [i] (g.trace root).1 ∧ (g.trace root).1.Nodup ∧
      (∀ j, j ∈ (g.trace root).1 ↔ g.Reach i j) ∧
      ∀ (σ ε : Type) (visit : σ → Fin g.size → σ × Option ε) (state : σ),
        (∀ state j, (visit state j).2 = none) →
          (g.walk root visit state).outcome = .ok (g.trace root).1.length) ∧
    ((¬ ∃ i, root = .node i ∧ g.IsTree i) → ∃ defect,
      (g.trace root).2 = some defect ∧ (g.trace root).1.Nodup ∧
      (∀ j ∈ (g.trace root).1, ∃ i, root = .node i ∧ g.Reach i j) ∧
      ∀ (σ ε : Type) (visit : σ → Fin g.size → σ × Option ε) (state : σ),
        (∀ state j, (visit state j).2 = none) →
          (g.walk root visit state).outcome = .error (.malformed defect)) := by
  obtain ⟨hnodup, hreach⟩ := trace_nodup root
  have hiff : (g.trace root).2 = none ↔ ∃ i, root = .node i ∧ g.IsTree i := by
    cases root with
    | stray value => cases value <;> simp [trace, start]
    | node i => simp [trace_defect_eq_none_iff]
  refine ⟨?_, hiff, ?_, fun hno => ?_⟩
  · simpa using hnodup.length_le_card
  · intro i hi htree
    subst hi
    have hnone := trace_defect_eq_none_iff.mpr htree
    have hpre := (trace_eq_iff.mp (Prod.ext rfl hnone)).1
    refine ⟨hpre, hnodup, fun j => by simpa using hpre.mem_iff j, ?_⟩
    intro σ ε visit state hwilling
    rw [walk_outcome_of_willing _ hwilling, hnone]
  · obtain ⟨defect, hdefect⟩ := Option.ne_none_iff_exists'.mp (mt hiff.mp hno)
    refine ⟨defect, hdefect, hnodup, hreach, ?_⟩
    intro σ ε visit state hwilling
    rw [walk_outcome_of_willing _ hwilling, hdefect]

end Graph

end TreeLint
