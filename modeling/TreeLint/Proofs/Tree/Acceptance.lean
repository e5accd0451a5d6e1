import TreeLint.Proofs.Tree.Portrait

/-!
# Acceptance of tree documents

A document is decoded exactly when it has a name, a text and a well-formed root of the right kind,
and every number that is written in it differs from the numbers of all nodes before. The decoded
tree has the shape of the document, its nodes say what their objects say, and their numbers are told
from the written ones.
-/

namespace TreeLint

/-- The numbers that the nodes of a tree carry, in pre-order. -/
def Tree.ids (tree : Tree) : List Int :=
  (tree.preorder.map Tree.label).map Node.id

namespace Document

/-- The numbers that are written in a document, in pre-order of its node objects. -/
def writtenIds (root : Json) : List (Option Int) :=
  (objects root).map (int? · "id")

/-- A document of the right form, apart from the numbers that are written in it. -/
structure HasForm (allowUnknown : Bool) (document root : Json) : Prop where
  fileName : ∃ name, document.field? "fileName" = some (.str name)
  text : ∃ text, document.field? "text" = some (.str text)
  root_eq : document.field? "root" = some root
  rootKind : ∃ name, root.field? "kind" = some (.str name) ∧ Kind.ofName? name = some .sourceFile
  wellFormed : WellFormed allowUnknown root

/-- A node is what its object says, the number included if one is written. -/
structure Keeps (fields : Fields) (node : Node) : Prop extends Describes fields node where
  id : ∀ id, int? fields "id" = some id → node.id = id

/-- A kind that stands for itself is the one of an object exactly when the object names it. -/
theorem kindIn_eq_iff {fields : Fields} {kind : Kind} (hkind : kind ≠ .unknown) :
    kindIn fields = kind ↔
      ∃ name, Table.get? fields "kind" = some (.str name) ∧ Kind.ofName? name = some kind := by
  unfold kindIn
  cases Table.get? fields "kind" with
  | none => simp [hkind.symm]
  | some value =>
    cases value with
    | str name => cases hname : Kind.ofName? name <;> simp [hname, hkind.symm]
    | _ => simp [hkind.symm]

/-- Labels keep what their objects say. -/
theorem Labelled.keeps {allowUnknown : Bool} {progress next : Progress} {objects : List Fields}
    {nodes : List Node} (h : Labelled allowUnknown progress objects nodes next) :
    List.Forall₂ Keeps objects nodes := by
  induction h with
  | nil => exact .nil
  | @cons progress middle _ fields node _ _ hlabel _ ih =>
    refine .cons ⟨(decodeLabel_spec hlabel).1, fun id hid => ?_⟩ ih
    obtain ⟨_, hassign⟩ := exists_decodeLabel_iff.mp ⟨node, middle, hlabel, rfl, rfl⟩
    rw [hid, IdPool.assign] at hassign
    split at hassign
    · cases hassign
    · exact (congrArg Prod.fst (Except.ok.inj hassign)).symm

/-- A decoded tree portrays its document: same shape, same order, and nodes that keep what their
objects say. -/
theorem portrays_keeps {allowUnknown : Bool} {json : Json} {path : NodePath}
    {progress next : Progress} {tree : Tree}
    (h : decodeNode allowUnknown json path progress = .ok (tree, next)) :
    Portrays Keeps json tree :=
  portrays_of_decodeNode h (labelled_of_decodeNode h).keeps

/-- The root of a tree stands for the root of the document that it portrays. -/
theorem Portrays.exists_root {R : Fields → Node → Prop} {json : Json} {tree : Tree}
    (h : Portrays R json tree) : ∃ fields, json = .obj fields ∧ R fields tree.label := by
  cases h [] with
  | some hroot => exact hroot

/-- The root of a decoded tree is of the kind that the root of the document names. -/
theorem kind_sourceFile_iff {json : Json} {tree : Tree} (h : Portrays Keeps json tree) :
    tree.label.kind = .sourceFile ↔
      ∃ name, json.field? "kind" = some (.str name) ∧ Kind.ofName? name = some .sourceFile := by
  obtain ⟨fields, rfl, hkeeps⟩ := h.exists_root
  rw [hkeeps.kind]
  exact kindIn_eq_iff (by decide)

/-- The numbers of a decoded tree are the written ones, which are new, and for the rest the least
that are free. -/
theorem numbered_of_decodeNode {allowUnknown : Bool} {json : Json} {path : NodePath}
    {next : Progress} {tree : Tree}
    (h : decodeNode allowUnknown json path {} = .ok (tree, next)) :
    Numbered [] (writtenIds json) tree.ids ∧ Fresh [] (writtenIds json) tree.ids :=
  ((exists_labelled_iff IdPool.holds_nil).mp ⟨_, next, labelled_of_decodeNode h, rfl⟩).2

/-- A document is decoded exactly when it is of the right form and every number that is written in
it differs from the numbers of all nodes before. -/
theorem exists_decode_iff {allowUnknown : Bool} {document : Json} :
    (∃ loaded, decode allowUnknown document = .ok loaded) ↔
      ∃ root ids, HasForm allowUnknown document root ∧
        Numbered [] (writtenIds root) ids ∧ Fresh [] (writtenIds root) ids := by
  constructor
  · intro h
    obtain ⟨loaded, h⟩ := h
    obtain ⟨root, next, hfileName, htext, hroot, htree, hkind, _⟩ := decode_eq_ok_iff.mp h
    have hwell := ((exists_decodeNode_iff _ _ _ _).mp ⟨_, htree⟩).1
    have hname := (kind_sourceFile_iff (portrays_keeps htree)).mp hkind
    exact ⟨root, loaded.tree.ids, ⟨⟨_, hfileName⟩, ⟨_, htext⟩, hroot, hname, hwell⟩,
      numbered_of_decodeNode htree⟩
  · intro h
    obtain ⟨root, ids, hform, hnumbers⟩ := h
    have hpool : ({} : Progress).ids.Holds [] := IdPool.holds_nil
    obtain ⟨nodes, next, hnodes, _⟩ :=
      (exists_labelled_iff hpool).mpr ⟨hform.wellFormed.labelFields, hnumbers⟩
    obtain ⟨tree, htree⟩ :=
      (exists_decodeNode_iff root [] {} next).mpr ⟨hform.wellFormed, nodes, hnodes⟩
    obtain ⟨fileName, hfileName⟩ := hform.fileName
    obtain ⟨text, htext⟩ := hform.text
    have hkind := (kind_sourceFile_iff (portrays_keeps htree)).mpr hform.rootKind
    exact ⟨⟨fileName, text, tree, next.types⟩, decode_eq_ok_iff.mpr
      ⟨root, next, hfileName, htext, hform.root_eq, htree, hkind, rfl⟩⟩

/-- Decoding accepts exactly the documents of the right form whose written numbers differ from the
numbers of all nodes before. The tree of an accepted document has its shape and its order of
children, every node says what its object says, written numbers are kept, and a missing one is the
least natural number that no node before carries. No number is carried twice, and missing numbers
increase. -/
theorem decode_accepts_exactly_its_format (allowUnknown : Bool) (document : Json) :
    ((∃ loaded, decode allowUnknown document = .ok loaded) ↔
      ∃ root ids, HasForm allowUnknown document root ∧
        Numbered [] (writtenIds root) ids ∧ Fresh [] (writtenIds root) ids) ∧
    ∀ loaded, decode allowUnknown document = .ok loaded →
      ∃ root, document.field? "fileName" = some (.str loaded.fileName) ∧
        document.field? "text" = some (.str loaded.text) ∧
        document.field? "root" = some root ∧
        Portrays Keeps root loaded.tree ∧
        Numbered [] (writtenIds root) loaded.tree.ids ∧
        loaded.tree.ids.Nodup ∧
        ∀ (place other : Nat) (m n : ℕ), place < other →
          (writtenIds root)[place]? = some none → (writtenIds root)[other]? = some none →
          loaded.tree.ids[place]? = some (m : Int) → loaded.tree.ids[other]? = some (n : Int) →
          m < n := by
  refine ⟨exists_decode_iff, fun loaded h => ?_⟩
  obtain ⟨root, next, hfileName, htext, hroot, htree, _⟩ := decode_eq_ok_iff.mp h
  obtain ⟨hnumbered, hfresh⟩ := numbered_of_decodeNode htree
  refine ⟨root, hfileName, htext, hroot, portrays_keeps htree, hnumbered, ?_, ?_⟩
  · have hnodup := hnumbered.nodup hfresh List.nodup_nil
    rwa [List.nil_append] at hnodup
  · intro place other m n hlt hplace hother hm hn
    exact hnumbered.lt_of_lt hlt hplace hother hm hn

/-- A document in which some nodes have a number and some have none: below the root, a block with
the number one that holds a node without, a node with a negative number, and one more without. -/
def someNumbers : Json :=
  .obj [("fileName", .str "a.ts"), ("text", .str "x y"),
    ("root", .obj [("kind", .str "SOURCE_FILE"), ("pos", .int 0), ("children", .arr [
      .obj [("kind", .str "Block"), ("pos", .int 0), ("id", .int 1), ("children", .arr [
        .obj [("kind", .str "Identifier"), ("pos", .int 0)]])],
      .obj [("kind", .str "Identifier"), ("pos", .int 2), ("end", .null), ("id", .int (-3))],
      .obj [("kind", .str "Identifier"), ("pos", .int 3), ("id", .null)]])])]

/-- The numbers that are missing are filled in around those that are written. -/
theorem decode_someNumbers :
    ∃ loaded root, decode false someNumbers = .ok loaded ∧
      someNumbers.field? "root" = some root ∧
      writtenIds root = [none, some 1, none, some (-3), none] ∧
      Portrays Keeps root loaded.tree ∧ loaded.tree.ids.Nodup ∧
      loaded.tree.ids = [0, 1, 2, -3, 3] := by
  have hids : (decode false someNumbers).toOption.map (·.tree.ids) = some [0, 1, 2, -3, 3] := by
    decide +kernel
  cases hloaded : decode false someNumbers with
  | error e => simp [hloaded, Except.toOption] at hids
  | ok loaded =>
    obtain ⟨root, _, _, hroot, hportrays, _, hnodup, _⟩ :=
      (decode_accepts_exactly_its_format false someNumbers).2 loaded hloaded
    rw [hloaded] at hids
    refine ⟨loaded, root, rfl, hroot, ?_, hportrays, hnodup, Option.some.inj hids⟩
    cases hroot
    decide +kernel

end Document

end TreeLint
