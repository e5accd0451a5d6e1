import Mathlib.Data.List.Nodup
import Mathlib.Logic.Relation
import TreeLint.Tree.Walk

/-!
# Pre-order without a stack

A walk keeps a stack and the nodes it has not met. Recursive pre-order is said here without either,
as a relation between roots and lists of nodes; it has no derivation where links run in circles.
Pre-order lists exactly the nodes that links lead to from its roots, and each listed node is a root
or the end of one edge that leaves a listed node.

A walk ends without a defect exactly when pre-order below its root lists no node twice, and then
meets the nodes in that order.
-/

namespace TreeLint

/-- The node that a link leads to. -/
def Link.target? {n : Nat} : Link n → Option (Fin n)
  | .node i => some i
  | .stray _ => none

namespace Graph

variable {g : Graph}

/-- Some link of the first node leads to the second. -/
def Edge (g : Graph) (i j : Fin g.size) : Prop :=
  .node j ∈ g.links i

/-- The second node is found from the first by following links, perhaps none. -/
def Reach (g : Graph) : Fin g.size → Fin g.size → Prop :=
  Relation.ReflTransGen g.Edge

/-- Recursive pre-order below some roots: each root, then what is below it from left to right,
then the other roots in the same way. -/
inductive InPreorder (g : Graph) : List (Fin g.size) → List (Fin g.size) → Prop where
  | nil : InPreorder g [] []
  | cons {i : Fin g.size} {below rest inner outer : List (Fin g.size)}
      (hlinks : g.links i = below.map .node) (hinner : InPreorder g below inner)
      (houter : InPreorder g rest outer) : InPreorder g (i :: rest) (i :: (inner ++ outer))

/-- The nodes that the links of a node lead to, from left to right. -/
def targets (g : Graph) (i : Fin g.size) : List (Fin g.size) :=
  (g.links i).filterMap Link.target?

/-- Links that are the links to some nodes lead to those nodes. -/
theorem targets_eq_of_links {i : Fin g.size} {below : List (Fin g.size)}
    (h : g.links i = below.map .node) : g.targets i = below := by
  rw [targets, h, List.filterMap_map]
  exact List.filterMap_some

/-- The nodes that links lead to are the ends of edges. -/
theorem mem_targets {i j : Fin g.size} : j ∈ g.targets i ↔ g.Edge i j := by
  simp only [targets, Edge, List.mem_filterMap]
  refine ⟨fun h => ?_, fun h => ⟨.node j, h, rfl⟩⟩
  obtain ⟨link, hlink, htarget⟩ := h
  cases link with
  | node k =>
    cases htarget
    exact hlink
  | stray value => cases htarget

/-- The nodes below nodes that links lead to are below the node with the links. -/
theorem reach_iff_of_links {i j : Fin g.size} {below : List (Fin g.size)}
    (h : g.links i = below.map .node) : g.Reach i j ↔ j = i ∨ ∃ k ∈ below, g.Reach k j := by
  have hedge (k : Fin g.size) : g.Edge i k ↔ k ∈ below := by
    rw [← mem_targets, targets_eq_of_links h]
  rw [Reach, Relation.ReflTransGen.cases_head_iff]
  simp only [hedge, eq_comm]

/-- Pre-order below two lists of roots is pre-order below the first and then below the second. -/
theorem inPreorder_append {first second nodes : List (Fin g.size)} :
    g.InPreorder (first ++ second) nodes ↔
      ∃ inner outer, nodes = inner ++ outer ∧ g.InPreorder first inner ∧
        g.InPreorder second outer := by
  constructor
  · intro h
    induction first generalizing nodes with
    | nil => exact ⟨[], nodes, rfl, .nil, h⟩
    | cons i first ih =>
      cases h with
      | cons hlinks hinner houter =>
        obtain ⟨x, y, rfl, hx, hy⟩ := ih houter
        exact ⟨_, y, by simp, .cons hlinks hinner hx, hy⟩
  · intro h
    obtain ⟨inner, outer, rfl, hfirst, hsecond⟩ := h
    induction hfirst with
    | nil => exact hsecond
    | cons hlinks hinner _ _ ih =>
      simp only [List.cons_append, List.append_assoc]
      exact .cons hlinks hinner ih

/-- Pre-order lists exactly the nodes below its roots. -/
theorem InPreorder.mem_iff {roots nodes : List (Fin g.size)} (h : g.InPreorder roots nodes)
    (j : Fin g.size) : j ∈ nodes ↔ ∃ i ∈ roots, g.Reach i j := by
  induction h with
  | nil => simp
  | cons hlinks _ _ ihinner ihouter =>
    rw [List.mem_cons, List.mem_append, ihinner, ihouter, List.exists_mem_cons_iff,
      reach_iff_of_links hlinks, or_assoc]

/-- In pre-order every link leads to a node. -/
theorem InPreorder.links_eq {roots nodes : List (Fin g.size)} (h : g.InPreorder roots nodes)
    {i : Fin g.size} (hi : i ∈ nodes) : g.links i = (g.targets i).map .node := by
  induction h with
  | nil => cases hi
  | cons hlinks _ _ ihinner ihouter =>
    rcases List.mem_cons.mp hi with rfl | hi
    · rw [targets_eq_of_links hlinks, hlinks]
    · rcases List.mem_append.mp hi with hi | hi
      · exact ihinner hi
      · exact ihouter hi

/-- Every listed node is a root or the end of one edge that leaves a listed node. -/
theorem InPreorder.perm {roots nodes : List (Fin g.size)} (h : g.InPreorder roots nodes) :
    nodes.Perm (roots ++ nodes.flatMap g.targets) := by
  induction h with
  | nil => exact List.Perm.refl _
  | @cons i below rest inner outer hlinks _ _ ihinner ihouter =>
    rw [List.flatMap_cons, targets_eq_of_links hlinks, List.flatMap_append, List.cons_append]
    refine List.Perm.cons i ((ihinner.append ihouter).trans ?_)
    -- Both sides hold the same four lists; only the remaining roots stand elsewhere.
    have hfront : (below ++ inner.flatMap g.targets ++ rest).Perm
        (rest ++ (below ++ inner.flatMap g.targets)) := List.perm_append_comm
    simpa only [List.append_assoc] using hfront.append_right (outer.flatMap g.targets)

/-- A walk meets no node twice, and only nodes that it had not met before. -/
theorem traceFrom_nodup (fresh stack : List (Fin g.size)) (hfresh : fresh.Nodup) :
    (g.traceFrom fresh stack).1.Nodup ∧ ∀ i ∈ (g.traceFrom fresh stack).1, i ∈ fresh := by
  fun_induction traceFrom g fresh stack with
  | case1 => simp
  | case2 fresh i rest hi => simpa using hi
  | case3 fresh i rest hi below _ _ others defect hothers ih =>
    rw [hothers] at ih
    obtain ⟨hnodup, hsub⟩ := ih (hfresh.erase i)
    refine ⟨List.nodup_cons.mpr ⟨fun hmem => ?_, hnodup⟩, fun j hj => ?_⟩
    · exact hfresh.not_mem_erase (hsub i hmem)
    · rcases List.mem_cons.mp hj with rfl | hj
      · exact hi
      · exact List.mem_of_mem_erase (hsub j hj)
  | case4 => simp

/-- A walk meets only nodes below its stack. -/
theorem reach_of_mem_traceFrom (fresh stack : List (Fin g.size)) :
    ∀ j ∈ (g.traceFrom fresh stack).1, ∃ i ∈ stack, g.Reach i j := by
  fun_induction traceFrom g fresh stack with
  | case1 => simp
  | case2 fresh i rest =>
    intro j hj
    rw [List.mem_singleton.mp hj]
    exact ⟨i, List.mem_cons_self, .refl⟩
  | case3 fresh i rest hi below hbelow _ others defect hothers ih =>
    rw [hothers] at ih
    have hlinks := Link.nodes_eq_ok_iff.mp hbelow
    intro j hj
    rcases List.mem_cons.mp hj with rfl | hj
    · exact ⟨j, List.mem_cons_self, .refl⟩
    · obtain ⟨k, hk, hreach⟩ := ih j hj
      rcases List.mem_append.mp hk with hk | hk
      · exact ⟨i, List.mem_cons_self, (reach_iff_of_links hlinks).mpr (.inr ⟨k, hk, hreach⟩)⟩
      · exact ⟨k, List.mem_cons_of_mem _ hk, hreach⟩
  | case4 => simp

/-- A walk without a defect meets the nodes below its stack in pre-order. -/
theorem inPreorder_traceFrom (fresh stack : List (Fin g.size))
    (h : (g.traceFrom fresh stack).2 = none) :
    g.InPreorder stack (g.traceFrom fresh stack).1 := by
  fun_induction traceFrom g fresh stack with
  | case1 => exact .nil
  | case2 => cases h
  | case3 fresh i rest hi below hbelow _ others defect hothers ih =>
    rw [hothers] at ih
    obtain ⟨inner, outer, rfl, hinner, houter⟩ := inPreorder_append.mp (ih h)
    exact .cons (Link.nodes_eq_ok_iff.mp hbelow) hinner houter
  | case4 => cases h

/-- A walk meets the pre-order below its stack if that lists no node twice and none met before. -/
theorem traceFrom_eq_of_inPreorder {fresh stack nodes : List (Fin g.size)}
    (h : g.InPreorder stack nodes) (hnodup : nodes.Nodup) (hsub : ∀ i ∈ nodes, i ∈ fresh) :
    g.traceFrom fresh stack = (nodes, none) := by
  fun_induction traceFrom g fresh stack generalizing nodes with
  | case1 =>
    cases h
    rfl
  | case2 fresh i rest hi value hvalue =>
    cases h with
    | cons hlinks =>
      rw [Link.nodes_eq_ok_iff.mpr hlinks] at hvalue
      cases hvalue
  | case3 fresh i rest hi below hbelow _ others defect hothers ih =>
    cases h with
    | @cons _ below' _ inner outer hlinks hinner houter =>
      have hsame : below' = below := by
        rw [← targets_eq_of_links hlinks, targets_eq_of_links (Link.nodes_eq_ok_iff.mp hbelow)]
      subst hsame
      obtain ⟨hnot, hnodup⟩ := List.nodup_cons.mp hnodup
      have hrest := ih (inPreorder_append.mpr ⟨inner, outer, rfl, hinner, houter⟩) hnodup
        fun j hj => (List.mem_erase_of_ne (ne_of_mem_of_not_mem hj hnot)).mpr
          (hsub j (List.mem_cons_of_mem _ hj))
      rw [hothers] at hrest
      cases hrest
      rfl
  | case4 fresh i rest hi =>
    cases h with
    | cons => exact absurd (hsub i List.mem_cons_self) hi

/-- A walk from a node ends without a defect exactly when pre-order below it lists no node twice,
and these are the nodes that it meets. -/
theorem trace_eq_iff {i : Fin g.size} {nodes : List (Fin g.size)} :
    g.trace (.node i) = (nodes, none) ↔ g.InPreorder [i] nodes ∧ nodes.Nodup := by
  change g.traceFrom (List.finRange g.size) [i] = (nodes, none) ↔ _
  constructor
  · intro h
    have hpre := inPreorder_traceFrom (List.finRange g.size) [i] (by rw [h])
    have hnodup := (traceFrom_nodup (List.finRange g.size) [i] (List.nodup_finRange _)).1
    rw [h] at hpre hnodup
    exact ⟨hpre, hnodup⟩
  · intro h
    obtain ⟨hpre, hnodup⟩ := h
    exact traceFrom_eq_of_inPreorder hpre hnodup fun j _ => List.mem_finRange j

end Graph

end TreeLint
