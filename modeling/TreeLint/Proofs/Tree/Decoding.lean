import Mathlib.Data.List.Forall2
import TreeLint.Proofs.Tree.Labels

/-!
# Decoding object by object

Decoding follows the nesting of a document and hands its progress on from node to node. The same
progress is made by going through the node objects of the document in pre-order and decoding their
labels one after the other. What is kept from label to label is then shown on a list: numbers are
never given twice, and the type kept under the number of a node is the one that its own object
holds.
-/

namespace TreeLint

namespace Document

mutual

/-- The node objects of a document in pre-order, found without decoding them. -/
def objects : Json → List Fields
  | .obj fields => fields :: objectsBelow fields
  | _ => []

/-- The node objects below an object, whose children are looked for among its fields. -/
def objectsBelow : Fields → List Fields
  | [] => []
  | (key, value) :: rest =>
    if key = "children" then
      match value with
      | .arr items => objectsAmong items
      | _ => []
    else objectsBelow rest

/-- The node objects of the items of a list. -/
def objectsAmong : List Json → List Fields
  | [] => []
  | item :: rest => objects item ++ objectsAmong rest

end

/-- Labels are decoded for some objects, one after the other, from one progress to another. -/
inductive Labelled (allowUnknown : Bool) :
    Progress → List Fields → List Node → Progress → Prop where
  | nil {progress : Progress} : Labelled allowUnknown progress [] [] progress
  | cons {progress middle next : Progress} {fields : Fields} {node : Node} {rest : List Fields}
      {nodes : List Node} (hlabel : decodeLabel allowUnknown fields progress = .ok (node, middle))
      (hrest : Labelled allowUnknown middle rest nodes next) :
      Labelled allowUnknown progress (fields :: rest) (node :: nodes) next

/-- Labels of some objects and then of others are labels of all of them. -/
theorem Labelled.append {allowUnknown : Bool} {progress middle next : Progress}
    {first second : List Fields} {nodes others : List Node}
    (h : Labelled allowUnknown progress first nodes middle)
    (hsecond : Labelled allowUnknown middle second others next) :
    Labelled allowUnknown progress (first ++ second) (nodes ++ others) next := by
  induction h with
  | nil => exact hsecond
  | cons hlabel _ ih => exact .cons hlabel (ih hsecond)

mutual

/-- Decoding a node object decodes the labels of its objects in pre-order. -/
theorem labelled_of_decodeNode {allowUnknown : Bool} {json : Json} {path : NodePath}
    {progress next : Progress} {tree : Tree}
    (h : decodeNode allowUnknown json path progress = .ok (tree, next)) :
    Labelled allowUnknown progress (objects json) (tree.preorder.map Tree.label) next := by
  cases json with
  | obj fields =>
    rw [decodeNode] at h
    split at h
    · cases h
    · next node middle hlabel =>
      split at h
      · cases h
      · next children last hbelow =>
        cases h
        rw [objects, Tree.preorder, List.map_cons]
        exact .cons hlabel (labelled_of_decodeBelow hbelow)
  | _ => simp [decodeNode] at h

/-- Decoding the children of a node object decodes the labels of the objects below it. -/
theorem labelled_of_decodeBelow {allowUnknown : Bool} {fields : Fields} {path : NodePath}
    {progress next : Progress} {trees : List Tree}
    (h : decodeBelow allowUnknown fields path progress = .ok (trees, next)) :
    Labelled allowUnknown progress (objectsBelow fields)
      ((Tree.preorderList trees).map Tree.label) next := by
  match fields with
  | [] =>
    cases h
    exact .nil
  | (key, value) :: rest =>
    unfold decodeBelow at h
    unfold objectsBelow
    by_cases hkey : key = "children"
    · rw [if_pos hkey] at h ⊢
      cases value with
      | arr items => exact labelled_of_decodeItems h
      | _ => cases h
    · rw [if_neg hkey] at h ⊢
      exact labelled_of_decodeBelow h

/-- Decoding child objects decodes the labels of their objects. -/
theorem labelled_of_decodeItems {allowUnknown : Bool} {items : List Json} {path : NodePath}
    {index : Nat} {progress next : Progress} {trees : List Tree}
    (h : decodeItems allowUnknown items path index progress = .ok (trees, next)) :
    Labelled allowUnknown progress (objectsAmong items)
      ((Tree.preorderList trees).map Tree.label) next := by
  match items with
  | [] =>
    cases h
    exact .nil
  | item :: rest =>
    rw [decodeItems] at h
    split at h
    · cases h
    · next tree middle hitem =>
      split at h
      · cases h
      · next others last hrest =>
        cases h
        rw [objectsAmong, Tree.preorderList, List.map_append]
        exact (labelled_of_decodeNode hitem).append (labelled_of_decodeItems hrest)

end

/-- The type kept for a node is found under its number. -/
theorem get?_keepType_self {types : Table Int String} {id : Int} {descriptor : Option String}
    (h : types.get? id = none) : (keepType types id descriptor).get? id = descriptor := by
  cases descriptor with
  | none => exact h
  | some descriptor => exact Table.get?_set_self types id descriptor

/-- The type kept for a node changes nothing under other numbers. -/
theorem get?_keepType_of_ne {types : Table Int String} {id other : Int}
    {descriptor : Option String} (h : other ≠ id) :
    (keepType types id descriptor).get? other = types.get? other := by
  cases descriptor with
  | none => rfl
  | some descriptor => exact Table.get?_set_of_ne types descriptor h

/-- Decoding further labels changes nothing under numbers in use. -/
theorem Labelled.get?_of_mem_used {allowUnknown : Bool} {progress next : Progress}
    {fields : List Fields} {nodes : List Node}
    (h : Labelled allowUnknown progress fields nodes next) {id : Int}
    (hid : id ∈ progress.ids.used) : next.types.get? id = progress.types.get? id := by
  induction h with
  | nil => rfl
  | cons hlabel _ ih =>
    obtain ⟨_, _, hfree, hused, htypes⟩ := decodeLabel_spec hlabel
    have hmiddle := ih (hused ▸ List.mem_cons_of_mem _ hid)
    rw [hmiddle, htypes]
    apply get?_keepType_of_ne
    intro heq
    rw [heq] at hid
    exact hfree hid

/-- Types are kept for numbers in use only. -/
def Progress.Sound (progress : Progress) : Prop :=
  ∀ id, id ∉ progress.ids.used → progress.types.get? id = none

/-- Decoding a label keeps types for numbers in use only. -/
theorem Progress.Sound.decodeLabel {allowUnknown : Bool} {fields : Fields}
    {progress next : Progress} {node : Node} (h : progress.Sound)
    (hlabel : decodeLabel allowUnknown fields progress = .ok (node, next)) : next.Sound := by
  obtain ⟨_, _, _, hused, htypes⟩ := decodeLabel_spec hlabel
  intro id hid
  rw [hused, List.mem_cons, not_or] at hid
  rw [htypes, get?_keepType_of_ne hid.1]
  exact h id hid.2

/-- A node is what its object says, and the type kept under its number is the one that its object
holds. -/
structure Mirrors (types : Table Int String) (fields : Fields) (node : Node) : Prop
    extends Describes fields node where
  start_nonneg : 0 ≤ node.start
  get?_id : types.get? node.id = text? fields "resolvedType"

/-- After decoding, every node mirrors its object. -/
theorem Labelled.mirrors {allowUnknown : Bool} {progress next : Progress} {fields : List Fields}
    {nodes : List Node} (h : Labelled allowUnknown progress fields nodes next)
    (hsound : progress.Sound) : List.Forall₂ (Mirrors next.types) fields nodes := by
  induction h with
  | nil => exact .nil
  | cons hlabel hrest ih =>
    obtain ⟨hdescribes, hstart, hfree, hused, htypes⟩ := decodeLabel_spec hlabel
    refine .cons ⟨hdescribes, hstart, ?_⟩ (ih (hsound.decodeLabel hlabel))
    rw [hrest.get?_of_mem_used (hused ▸ List.mem_cons_self), htypes]
    exact get?_keepType_self (hsound _ hfree)

/-- A document is decoded exactly when its name and text are texts, its root is decoded, and the
root of the tree is of the right kind. -/
theorem decode_eq_ok_iff {allowUnknown : Bool} {document : Json} {loaded : LoadedTree} :
    decode allowUnknown document = .ok loaded ↔
      ∃ root next, document.field? "fileName" = some (.str loaded.fileName) ∧
        document.field? "text" = some (.str loaded.text) ∧
        document.field? "root" = some root ∧
        decodeNode allowUnknown root [] {} = .ok (loaded.tree, next) ∧
        loaded.tree.label.kind = .sourceFile ∧ loaded.types = next.types := by
  constructor
  · intro h
    cases document with
    | obj fields =>
      simp only [decode] at h
      split at h
      · next fileName text root hfileName htext hroot =>
        split at h
        · cases h
        · next tree next htree =>
          split at h
          · next hkind =>
            cases h
            exact ⟨root, next, hfileName, htext, hroot, htree, hkind, rfl⟩
          · cases h
      · cases h
      · cases h
      · cases h
    | _ => cases h
  · intro h
    obtain ⟨root, next, hfileName, htext, hroot, htree, hkind, htypes⟩ := h
    cases document with
    | obj fields =>
      simp only [Json.field?] at hfileName htext hroot
      simp only [decode, hfileName, htext, hroot, htree, if_pos hkind, ← htypes]
    | _ => cases hroot

/-- A decoded document has a name, a text and a root, and the nodes of its tree mirror the node
objects of that root in pre-order. -/
theorem exists_root_of_decode {allowUnknown : Bool} {document : Json} {loaded : LoadedTree}
    (h : decode allowUnknown document = .ok loaded) :
    ∃ root, document.field? "fileName" = some (.str loaded.fileName) ∧
      document.field? "text" = some (.str loaded.text) ∧
      document.field? "root" = some root ∧ loaded.tree.label.kind = .sourceFile ∧
      List.Forall₂ (Mirrors loaded.types) (objects root)
        (loaded.tree.preorder.map Tree.label) := by
  obtain ⟨root, next, hfileName, htext, hroot, htree, hkind, htypes⟩ := decode_eq_ok_iff.mp h
  have hempty : Progress.Sound {} := fun _ _ => rfl
  rw [htypes]
  exact ⟨root, hfileName, htext, hroot, hkind, (labelled_of_decodeNode htree).mirrors hempty⟩

end Document

end TreeLint
