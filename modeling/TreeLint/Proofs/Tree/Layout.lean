import TreeLint.Proofs.Tree.Preorder

/-!
# Trees laid out as graphs

A tree becomes a graph by writing its cells in pre-order, each with the numbers at which its
children begin. A stretch of cells that holds trees laid out one after the other is therefore in
recursive pre-order, with consecutive numbers and the labels of the trees. A walk over a tree that
was laid out as a graph meets the labels of the tree in pre-order and finds no defect.
-/

namespace TreeLint

/-- A cell that stands behind other cells of a graph is the one with their number. -/
theorem Graph.getElem_cells_of_append {g : Graph} {front back : List (Cell g.size)}
    {cell : Cell g.size} (h : g.cells.toList = front ++ cell :: back) {i : Fin g.size}
    (hi : i.val = front.length) : g.cells[i] = cell := by
  have hget : g.cells.toList[i.val]? = some cell := by
    rw [h, hi]
    simp
  rw [Vector.getElem?_toList, Vector.getElem?_eq_getElem i.isLt] at hget
  exact Option.some.inj hget

namespace Tree

/-- Where trees are laid out one after the other, pre-order below their roots lists the numbers of
their cells and the labels of the trees. -/
theorem exists_inPreorder_of_cells (g : Graph) (trees : List Tree)
    (front back : List (Cell g.size))
    (h : g.cells.toList = front ++ (cellsFromList g.size front.length trees ++ back)) :
    ∃ roots nodes, linksTo g.size (rootNumbers front.length trees) = roots.map .node ∧
      g.InPreorder roots nodes ∧
      nodes.map Fin.val = List.range' front.length (sizeList trees) ∧
      nodes.map g.node = (preorderList trees).map label := by
  match trees with
  | [] => exact ⟨[], [], rfl, .nil, rfl, rfl⟩
  | .node first children :: rest =>
    let cell : Cell g.size := ⟨first, linksTo g.size (rootNumbers (front.length + 1) children)⟩
    have hcells : g.cells.toList = front ++ cell :: (cellsFromList g.size (front.length + 1)
        children ++ (cellsFromList g.size (front.length + (sizeList children + 1)) rest ++
          back)) := by
      rw [h]
      simp only [cellsFromList, cellsFrom, size, List.cons_append, List.append_assoc, cell]
    -- The children are laid out behind the cell of the root, the other trees behind both.
    obtain ⟨below, inner, hbelow, hinner, hinnerVal, hinnerNode⟩ :=
      exists_inPreorder_of_cells g children (front ++ [cell]) _ (by
        rw [List.length_append, List.length_singleton, List.append_assoc]
        exact hcells)
    obtain ⟨roots, outer, hroots, houter, houterVal, houterNode⟩ :=
      exists_inPreorder_of_cells g rest
        (front ++ cell :: cellsFromList g.size (front.length + 1) children) back (by
          rw [List.length_append, List.length_cons, length_cellsFromList, hcells]
          simp only [List.append_assoc, List.cons_append])
    rw [List.length_append, List.length_singleton] at hbelow hinnerVal
    rw [List.length_append, List.length_cons, length_cellsFromList] at hroots houterVal
    have hlt : front.length < g.size := by
      have hlength := congrArg List.length hcells
      rw [Vector.length_toList, List.length_append, List.length_cons] at hlength
      omega
    let i : Fin g.size := ⟨front.length, hlt⟩
    have hi : g.cells[i] = cell := Graph.getElem_cells_of_append hcells rfl
    refine ⟨i :: roots, i :: (inner ++ outer), ?_, .cons ?_ hinner houter, ?_, ?_⟩
    · simp only [linksTo, rootNumbers, List.map_cons, dif_pos hlt]
      exact congrArg (Link.node i :: ·) hroots
    · rw [Graph.links, hi]
      exact hbelow
    · have hsize : sizeList (.node first children :: rest) =
          sizeList children + sizeList rest + 1 := by
        simp only [sizeList, size]
        omega
      rw [List.map_cons, List.map_append, hinnerVal, houterVal, hsize, List.range'_succ,
        ← List.range'_append_1]
      congr 3
      omega
    · have hlabel : g.node i = first := by rw [Graph.node, hi]
      rw [List.map_cons, List.map_append, hinnerNode, houterNode, hlabel]
      simp only [preorderList, preorder, List.map_cons, List.map_append, List.cons_append, label]

/-- The node at the root of a tree that is laid out as a graph is its label. -/
theorem node_toGraph_zero (tree : Tree) : tree.toGraph.node ⟨0, tree.size_pos⟩ = tree.label := by
  cases tree with
  | node label children => rfl

/-- A walk over a tree that is laid out as a graph meets its labels in pre-order and finds no
defect. -/
theorem trace_toGraph (tree : Tree) :
    (tree.toGraph.trace tree.rootLink).2 = none ∧
    (tree.toGraph.trace tree.rootLink).1.map tree.toGraph.node = tree.preorder.map label := by
  have hcells : tree.toGraph.cells.toList =
      [] ++ (cellsFromList tree.toGraph.size ([] : List (Cell tree.toGraph.size)).length [tree] ++
        []) := by
    simp only [cellsFromList, List.append_nil, List.nil_append]
    rfl
  obtain ⟨roots, nodes, hroots, hpre, hval, hnode⟩ := exists_inPreorder_of_cells _ _ _ _ hcells
  have hroot : linksTo tree.toGraph.size (rootNumbers 0 [tree]) = [tree.rootLink] := by
    simp only [linksTo, rootNumbers, List.map_cons, List.map_nil]
    exact congrArg (fun link => [link]) (dif_pos tree.size_pos)
  have hnodup : nodes.Nodup := by
    apply List.Nodup.of_map Fin.val
    rw [hval]
    exact List.nodup_range'
  have htrace : tree.toGraph.trace tree.rootLink = (nodes, none) := by
    refine Graph.trace_eq_iff.mpr ⟨?_, hnodup⟩
    have hsingle : roots = [⟨0, tree.size_pos⟩] :=
      List.map_injective_iff.mpr (fun _ _ => Link.node.inj) (hroots.symm.trans hroot)
    rw [← hsingle]
    exact hpre
  rw [htrace]
  refine ⟨rfl, ?_⟩
  rw [hnode, preorderList, preorderList, List.append_nil]

end Tree

end TreeLint
