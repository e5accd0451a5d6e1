import Mathlib.Data.List.Pairwise
import TreeLint.Proofs.Tree.Preorder

/-!
# Trees among node graphs

A graph is a tree below a root when every link below the root leads to a node, no link leads to
the root, and each other node is led to from exactly one place. Two links of one node to the same
child are two places. A walk ends without a defect exactly on trees.

The argument counts edges. Between two steps the nodes met and the stack together are the root and
the ends of all edges that leave nodes met; on a tree these ends are distinct, so that the next
node is always a new one.
-/

namespace TreeLint.Graph

variable {g : Graph}

/-- The part of a graph below a root is a tree. An edge is a node together with a place in its
list of links. -/
structure IsTree (g : Graph) (root : Fin g.size) : Prop where
  node_of_mem : ∀ i, g.Reach root i → ∀ link ∈ g.links i, ∃ j, link = .node j
  root_not_below : ∀ i, g.Reach root i → .node root ∉ g.links i
  existsUnique_edge : ∀ j, g.Reach root j → j ≠ root →
    ∃! edge : Fin g.size × Nat,
      g.Reach root edge.1 ∧ (g.links edge.1)[edge.2]? = some (.node j)

/-- Where all links lead to nodes, a place among the links is a place among the nodes. -/
theorem getElem?_links_iff {i j : Fin g.size} {place : Nat}
    (h : g.links i = (g.targets i).map .node) :
    (g.links i)[place]? = some (.node j) ↔ (g.targets i)[place]? = some j := by
  rw [h, List.getElem?_map, Option.map_eq_some_iff]
  refine ⟨fun hj => ?_, fun hj => ⟨j, hj, rfl⟩⟩
  obtain ⟨k, hk, hlink⟩ := hj
  cases hlink
  exact hk

/-- Below the root of a tree all links lead to nodes. -/
theorem IsTree.links_eq {root i : Fin g.size} (h : g.IsTree root) (hi : g.Reach root i) :
    g.links i = (g.targets i).map .node := by
  have hnodes := h.node_of_mem i hi
  unfold targets
  generalize g.links i = links at hnodes
  induction links with
  | nil => rfl
  | cons link rest ih =>
    obtain ⟨j, rfl⟩ := hnodes link List.mem_cons_self
    have hrest := ih fun link hlink => hnodes link (List.mem_cons_of_mem _ hlink)
    exact congrArg (List.cons (.node j)) hrest

/-- In a tree a node is led to from at most one place. -/
theorem IsTree.edge_unique {root i k j : Fin g.size} {place other : Nat} (h : g.IsTree root)
    (hi : g.Reach root i) (hk : g.Reach root k) (hplace : (g.targets i)[place]? = some j)
    (hother : (g.targets k)[other]? = some j) : i = k ∧ place = other := by
  have hedge : g.Edge i j := mem_targets.mp (List.mem_of_getElem? hplace)
  have hne : j ≠ root := by
    intro hroot
    rw [hroot] at hedge
    exact h.root_not_below i hi hedge
  obtain ⟨edge, _, hunique⟩ := h.existsUnique_edge j (hi.tail hedge) hne
  have hfirst := hunique (i, place) ⟨hi, (getElem?_links_iff (h.links_eq hi)).mpr hplace⟩
  have hsecond := hunique (k, other) ⟨hk, (getElem?_links_iff (h.links_eq hk)).mpr hother⟩
  exact Prod.mk.inj (hfirst.trans hsecond.symm)

/-- In a tree the root and the ends of all edges that leave some of its nodes are distinct. -/
theorem IsTree.nodup_ends {root : Fin g.size} {nodes : List (Fin g.size)} (h : g.IsTree root)
    (hreach : ∀ i ∈ nodes, g.Reach root i) (hnodup : nodes.Nodup) :
    (root :: nodes.flatMap g.targets).Nodup := by
  refine List.nodup_cons.mpr ⟨fun hmem => ?_, List.nodup_flatMap.mpr ⟨fun i hi => ?_, ?_⟩⟩
  · obtain ⟨i, hi, hroot⟩ := List.mem_flatMap.mp hmem
    exact h.root_not_below i (hreach i hi) (mem_targets.mp hroot)
  · rw [List.nodup_iff_getElem?_ne_getElem?]
    intro place other hlt hlength heq
    have hplace := List.getElem?_eq_getElem hlength
    have := (h.edge_unique (hreach i hi) (hreach i hi) (heq.trans hplace) hplace).2
    omega
  · apply List.Pairwise.imp_of_mem _ hnodup
    intro i k hi hk hne j hij hkj
    obtain ⟨place, hplace⟩ := List.mem_iff_getElem?.mp hij
    obtain ⟨other, hother⟩ := List.mem_iff_getElem?.mp hkj
    exact hne (h.edge_unique (hreach i hi) (hreach k hk) hplace hother).1

/-- What holds between the steps of a walk from a root: the nodes met are distinct nodes below the
root, and together with the stack they are the root and the ends of all edges that leave them. -/
structure WalkInvariant (g : Graph) (root : Fin g.size) (met stack : List (Fin g.size)) : Prop where
  nodup : met.Nodup
  reach : ∀ i ∈ met, g.Reach root i
  perm : (met ++ stack).Perm (root :: met.flatMap g.targets)

/-- The next node of a walk over a tree is a new one below the root, its links lead to nodes, and
meeting it keeps the invariant. -/
theorem WalkInvariant.step {root i : Fin g.size} {met rest : List (Fin g.size)}
    (inv : g.WalkInvariant root met (i :: rest)) (h : g.IsTree root) :
    i ∉ met ∧ g.Reach root i ∧ g.WalkInvariant root (i :: met) (g.targets i ++ rest) := by
  have hdistinct : (met ++ i :: rest).Nodup :=
    inv.perm.nodup_iff.mpr (h.nodup_ends inv.reach inv.nodup)
  have hnew : i ∉ met := fun hi => (List.nodup_append.mp hdistinct).2.2 i hi i List.mem_cons_self rfl
  have hreach : g.Reach root i := by
    rcases List.mem_cons.mp (inv.perm.mem_iff.mp (List.mem_append_right met List.mem_cons_self))
      with rfl | hend
    · exact .refl
    · obtain ⟨k, hk, hik⟩ := List.mem_flatMap.mp hend
      exact (inv.reach k hk).tail (mem_targets.mp hik)
  refine ⟨hnew, hreach, List.nodup_cons.mpr ⟨hnew, inv.nodup⟩, fun j hj => ?_, ?_⟩
  · rcases List.mem_cons.mp hj with rfl | hj
    · exact hreach
    · exact inv.reach j hj
  · calc (i :: met ++ (g.targets i ++ rest)).Perm (g.targets i ++ (i :: met ++ rest)) :=
          List.perm_append_comm_assoc _ _ _
      List.Perm _ (g.targets i ++ (met ++ i :: rest)) :=
          List.Perm.append_left _ List.perm_middle.symm
      List.Perm _ (g.targets i ++ root :: met.flatMap g.targets) := inv.perm.append_left _
      List.Perm _ (root :: (i :: met).flatMap g.targets) := List.perm_middle

/-- A walk over a tree ends without a defect. -/
theorem IsTree.traceFrom_defect {root : Fin g.size} (h : g.IsTree root)
    {met fresh stack : List (Fin g.size)} (inv : g.WalkInvariant root met stack)
    (hfresh : ∀ i, i ∉ met → i ∈ fresh) : (g.traceFrom fresh stack).2 = none := by
  fun_induction traceFrom g fresh stack generalizing met with
  | case1 => rfl
  | case2 fresh i rest hi value hvalue =>
    have hlinks := h.links_eq (inv.step h).2.1
    rw [Link.nodes_eq_ok_iff.mpr hlinks] at hvalue
    cases hvalue
  | case3 fresh i rest hi below hbelow _ others defect hothers ih =>
    rw [hothers] at ih
    have hnext := (inv.step h).2.2
    rw [targets_eq_of_links (Link.nodes_eq_ok_iff.mp hbelow)] at hnext
    apply ih hnext
    intro j hj
    obtain ⟨hne, hj⟩ := not_or.mp (mt List.mem_cons.mpr hj)
    exact (List.mem_erase_of_ne hne).mpr (hfresh j hj)
  | case4 fresh i rest hi => exact absurd (hfresh i (inv.step h).1) hi

/-- Where pre-order lists no node twice, the graph is a tree. -/
theorem InPreorder.isTree {root : Fin g.size} {nodes : List (Fin g.size)}
    (h : g.InPreorder [root] nodes) (hnodup : nodes.Nodup) : g.IsTree root := by
  have hmem (i : Fin g.size) : i ∈ nodes ↔ g.Reach root i := by
    simpa using h.mem_iff i
  have hends : (root :: nodes.flatMap g.targets).Nodup := h.perm.nodup_iff.mp hnodup
  obtain ⟨hroot, hends⟩ := List.nodup_cons.mp hends
  obtain ⟨hplaces, hdisjoint⟩ := List.nodup_flatMap.mp hends
  refine ⟨fun i hi link hlink => ?_, fun i hi hlink => ?_, fun j hj hne => ?_⟩
  · rw [h.links_eq ((hmem i).mpr hi)] at hlink
    obtain ⟨j, _, rfl⟩ := List.mem_map.mp hlink
    exact ⟨j, rfl⟩
  · exact hroot (List.mem_flatMap.mpr ⟨i, (hmem i).mpr hi, mem_targets.mpr hlink⟩)
  · have hend : j ∈ nodes.flatMap g.targets := by
      rcases List.mem_cons.mp (h.perm.mem_iff.mp ((hmem j).mpr hj)) with hj | hj
      · exact absurd hj hne
      · exact hj
    obtain ⟨i, hi, hij⟩ := List.mem_flatMap.mp hend
    obtain ⟨place, hplace⟩ := List.mem_iff_getElem?.mp hij
    refine ⟨(i, place), ⟨(hmem i).mp hi, (getElem?_links_iff (h.links_eq hi)).mpr hplace⟩, ?_⟩
    intro edge hedge
    obtain ⟨k, other⟩ := edge
    obtain ⟨hk, hother⟩ := hedge
    have hk := (hmem k).mpr hk
    rw [getElem?_links_iff (h.links_eq hk)] at hother
    have : Std.Symm (Function.onFun List.Disjoint g.targets) := ⟨fun _ _ hij _ ha hb => hij hb ha⟩
    have hsame : k = i := by
      by_contra hki
      exact hdisjoint.forall hk hi hki (List.mem_of_getElem? hother) hij
    subst hsame
    have hlength := (List.getElem?_eq_some_iff.mp hother).1
    have hplaces := (List.getElem?_inj hlength (hplaces k hk)).mp (hother.trans hplace.symm)
    exact Prod.ext rfl hplaces

/-- A walk from a node ends without a defect exactly on a tree. -/
theorem trace_defect_eq_none_iff {i : Fin g.size} :
    (g.trace (.node i)).2 = none ↔ g.IsTree i := by
  constructor
  · intro h
    obtain ⟨hpre, hnodup⟩ := trace_eq_iff.mp (Prod.ext rfl h)
    exact hpre.isTree hnodup
  · intro h
    have inv : g.WalkInvariant i [] [i] := ⟨List.nodup_nil, by simp, by simp⟩
    exact h.traceFrom_defect inv fun j _ => List.mem_finRange j

end TreeLint.Graph
