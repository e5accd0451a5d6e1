import TreeLint.Proofs.Tree.Format

/-!
# Trees and documents of the same shape

A path leads from the root of a tree to a node, and from the root of a document to a node object. A
tree portrays a document when every path either leads to a node in the tree and to the object of
that node in the document, or gets lost in both. As paths count children from left to right, the two
then have the same shape and the same order of children.

A decoded tree portrays its document, and what is known of nodes and objects in pre-order is known
of them path by path.
-/

namespace TreeLint

/-- The subtree that a path leads to. -/
def Tree.at? (tree : Tree) : NodePath → Option Tree
  | [] => some tree
  | place :: rest => tree.children[place]?.bind fun child => child.at? rest

namespace Document

/-- The value that a path through children leads to. -/
def valueAt? (json : Json) : NodePath → Option Json
  | [] => some json
  | place :: rest => (childItems json)[place]?.bind fun item => valueAt? item rest

/-- Every path leads to a node object and a node that stand in a relation, or gets lost in both the
document and the tree. -/
def Portrays (R : Fields → Node → Prop) (json : Json) (tree : Tree) : Prop :=
  ∀ path, Option.Rel (fun value subtree => ∃ fields, value = .obj fields ∧ R fields subtree.label)
    (valueAt? json path) (tree.at? path)

section Lists

variable {α β : Type} {R : α → β → Prop}

/-- Lists whose items stand in a relation one by one have related items at every place. -/
theorem rel_getElem?_of_forall₂ {items : List α} {others : List β}
    (h : List.Forall₂ R items others) (place : Nat) :
    Option.Rel R items[place]? others[place]? := by
  induction h generalizing place with
  | nil => exact .none
  | cons hfirst _ ih =>
    cases place with
    | zero => exact .some hfirst
    | succ place => exact ih place

/-- Related lists are related part by part where the first parts are of one length. -/
theorem forall₂_of_append {first second : List α} {others more : List β}
    (hlength : first.length = others.length)
    (h : List.Forall₂ R (first ++ second) (others ++ more)) :
    List.Forall₂ R first others ∧ List.Forall₂ R second more := by
  have hfirst := List.forall₂_take_append _ _ _ h
  have hsecond := List.forall₂_drop_append _ _ _ h
  rw [← hlength, List.take_left] at hfirst
  rw [← hlength, List.drop_left] at hsecond
  exact ⟨hfirst, hsecond⟩

end Lists

/-- A tree portrays an object when its root does and its subtrees portray the child items. -/
theorem portrays_node {R : Fields → Node → Prop} {fields : Fields} {label : Node}
    {children : List Tree} (hlabel : R fields label)
    (hchildren : List.Forall₂ (Portrays R) (childItems (.obj fields)) children) :
    Portrays R (.obj fields) (.node label children) := by
  intro path
  cases path with
  | nil => exact .some ⟨fields, rfl, hlabel⟩
  | cons place rest =>
    have hplace := rel_getElem?_of_forall₂ hchildren place
    simp only [valueAt?, Tree.at?, Tree.children]
    generalize (childItems (.obj fields))[place]? = item, children[place]? = child at hplace
    cases hplace with
    | none => exact .none
    | some hchild => exact hchild rest

/-- There is one node for each object. -/
theorem Labelled.length_eq {allowUnknown : Bool} {progress next : Progress}
    {objects : List Fields} {nodes : List Node}
    (h : Labelled allowUnknown progress objects nodes next) : objects.length = nodes.length := by
  induction h with
  | nil => rfl
  | cons _ _ ih => rw [List.length_cons, List.length_cons, ih]

/-- Decoded trees portray their items if each of them does. -/
theorem forall₂_portrays_of_decodeItems {allowUnknown : Bool} {R : Fields → Node → Prop}
    {items : List Json}
    (hitems : ∀ item ∈ items, ∀ path progress next tree,
      decodeNode allowUnknown item path progress = .ok (tree, next) →
      List.Forall₂ R (objects item) (tree.preorder.map Tree.label) → Portrays R item tree)
    {path : NodePath} {index : Nat} {progress next : Progress} {trees : List Tree}
    (h : decodeItems allowUnknown items path index progress = .ok (trees, next))
    (hlabels : List.Forall₂ R (objectsAmong items) ((Tree.preorderList trees).map Tree.label)) :
    List.Forall₂ (Portrays R) items trees := by
  induction items generalizing index progress trees with
  | nil =>
    cases h
    exact .nil
  | cons item rest ih =>
    obtain ⟨tree, middle, others, htree, hothers, rfl⟩ := decodeItems_cons_eq_ok_iff.mp h
    obtain ⟨hitem, hrest⟩ := List.forall_mem_cons.mp hitems
    rw [objectsAmong, Tree.preorderList, List.map_append] at hlabels
    -- The labels of the first item stand first, one for each of its objects.
    obtain ⟨hfirst, hsecond⟩ :=
      forall₂_of_append (labelled_of_decodeNode htree).length_eq hlabels
    exact .cons (hitem _ _ _ _ htree hfirst) (ih hrest hothers hsecond)

/-- A decoded tree portrays its document in every relation that holds between the objects and the
nodes in pre-order. -/
theorem portrays_of_decodeNode {allowUnknown : Bool} {R : Fields → Node → Prop} {json : Json}
    {path : NodePath} {progress next : Progress} {tree : Tree}
    (h : decodeNode allowUnknown json path progress = .ok (tree, next))
    (hlabels : List.Forall₂ R (objects json) (tree.preorder.map Tree.label)) :
    Portrays R json tree := by
  induction json using childItems_induction generalizing path progress next tree with
  | step json ih =>
    cases json with
    | obj fields =>
      obtain ⟨node, middle, children, _, _, hchildren, rfl⟩ := decodeNode_obj_eq_ok_iff.mp h
      rw [objects_obj, Tree.preorder, List.map_cons] at hlabels
      cases hlabels with
      | cons hlabel hbelow =>
        refine portrays_node hlabel (forall₂_portrays_of_decodeItems ?_ hchildren hbelow)
        intro item hitem path progress next tree htree hlabels
        exact ih item hitem htree hlabels
    | _ => simp [decodeNode] at h

end Document

end TreeLint
