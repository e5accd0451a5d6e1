import Mathlib.Data.List.Induction
import TreeLint.Proofs.Json.Number
import TreeLint.Proofs.Text.Blank
import TreeLint.Proofs.Tree.Portrait

/-!
# Places in a document

The values that stand for nodes in a document are its root and the items of the lists of children,
whether they are node objects or not. They are listed in pre-order, each with the path that leads to
it. A path is also read off its text: `root` leads to the root, and a step `.children[i]` leads from
an object to an item of its children. The text of a path leads to one value only, the one at the end
of the path.
-/

namespace TreeLint

namespace Document

mutual

/-- The values that stand for nodes, in pre-order, each with its path. -/
def places : Json → NodePath → List (NodePath × Json)
  | .obj fields, path => (path, .obj fields) :: placesBelow fields path
  | value, path => [(path, value)]

/-- The places below an object, whose children are looked for among its fields. -/
def placesBelow : Fields → NodePath → List (NodePath × Json)
  | [], _ => []
  | (key, value) :: rest, path =>
    if key = "children" then
      match value with
      | .arr items => placesAmong items path 0
      | _ => []
    else placesBelow rest path

/-- The places of items from the given place in the list of children on. -/
def placesAmong : List Json → NodePath → Nat → List (NodePath × Json)
  | [], _, _ => []
  | item :: rest, path, index => places item (path ++ [index]) ++ placesAmong rest path (index + 1)

end

/-- The places of a value are its own and those of its child items. -/
theorem places_eq (json : Json) (path : NodePath) :
    places json path = (path, json) :: placesAmong (childItems json) path 0 := by
  cases json with
  | obj fields =>
    rw [places]
    congr 1
    unfold childItems Json.field?
    induction fields with
    | nil => rfl
    | cons field rest ih =>
      obtain ⟨key, value⟩ := field
      unfold placesBelow
      by_cases hkey : key = "children"
      · simp only [if_pos hkey, Table.get?]
        cases value <;> rfl
      · simp only [if_neg hkey, Table.get?]
        exact ih
  | _ => rfl

/-- The places of items are those of each of them, under the number of the item. -/
theorem mem_placesAmong_iff {items : List Json} {path : NodePath} {index : Nat}
    {place : NodePath × Json} :
    place ∈ placesAmong items path index ↔
      ∃ i item, items[i]? = some item ∧ place ∈ places item (path ++ [index + i]) := by
  induction items generalizing index with
  | nil => simp [placesAmong]
  | cons item rest ih =>
    rw [placesAmong, List.mem_append, ih]
    constructor
    · intro h
      rcases h with hitem | ⟨i, other, hother, hplace⟩
      · exact ⟨0, item, rfl, hitem⟩
      · exact ⟨i + 1, other, hother, by rwa [← Nat.add_assoc, Nat.add_right_comm]⟩
    · intro h
      obtain ⟨i, other, hother, hplace⟩ := h
      cases i with
      | zero =>
        cases hother
        exact .inl hplace
      | succ i => exact .inr ⟨i, other, hother, by rwa [Nat.add_right_comm, Nat.add_assoc]⟩

/-- The places of a document are the paths that lead somewhere, with the values they lead to. -/
theorem mem_places_iff {json value : Json} {path target : NodePath} :
    (target, value) ∈ places json path ↔
      ∃ rest, target = path ++ rest ∧ valueAt? json rest = some value := by
  induction json using childItems_induction generalizing path target with
  | step json ih =>
    rw [places_eq, List.mem_cons, mem_placesAmong_iff]
    constructor
    · intro h
      rcases h with hroot | ⟨i, item, hitem, hplace⟩
      · cases hroot
        exact ⟨[], (List.append_nil path).symm, rfl⟩
      · obtain ⟨rest, rfl, hvalue⟩ := (ih item (List.mem_of_getElem? hitem)).mp hplace
        refine ⟨i :: rest, by simp, ?_⟩
        rw [valueAt?, hitem, Option.bind_some, hvalue]
    · intro h
      obtain ⟨rest, rfl, hvalue⟩ := h
      cases rest with
      | nil =>
        cases hvalue
        exact .inl (by rw [List.append_nil])
      | cons i rest =>
        obtain ⟨item, hitem, hvalue⟩ := Option.bind_eq_some_iff.mp hvalue
        exact .inr ⟨i, item, hitem,
          (ih item (List.mem_of_getElem? hitem)).mpr ⟨rest, by simp, hvalue⟩⟩

/-! ### The text of a path -/

/-- A path text leads from the root of a document to a value. -/
inductive Leads (root : Json) : String → Json → Prop where
  | root : Leads root "root" root
  | child {text : String} {value item : Json} {items : List Json} {i : Nat}
      (h : Leads root text value) (hchildren : value.field? "children" = some (.arr items))
      (hitem : items[i]? = some item) : Leads root s!"{text}.children[{i}]" item

/-- One more step leads to a child item. -/
theorem valueAt?_concat (json : Json) (path : NodePath) (i : Nat) :
    valueAt? json (path ++ [i]) =
      (valueAt? json path).bind fun value => (childItems value)[i]? := by
  induction path generalizing json with
  | nil => simp [valueAt?]
  | cons place rest ih =>
    rw [List.cons_append, valueAt?, valueAt?]
    cases (childItems json)[place]? with
    | none => rfl
    | some item => exact ih item

/-- The text of a longer path has one more step. -/
theorem display_concat (path : NodePath) (i : Nat) :
    NodePath.display (path ++ [i]) = s!"{path.display}.children[{i}]" := by
  rw [NodePath.display, List.foldl_append]
  rfl

/-- Child items are the items of the list of children. -/
theorem getElem?_childItems_iff {value item : Json} {i : Nat} :
    (childItems value)[i]? = some item ↔
      ∃ items, value.field? "children" = some (.arr items) ∧ items[i]? = some item := by
  constructor
  · intro h
    unfold childItems at h
    split at h
    · next items hitems => exact ⟨items, hitems, h⟩
    · cases h
  · intro h
    obtain ⟨items, hitems, hitem⟩ := h
    simpa only [childItems, hitems] using hitem

/-- A text leads to a value exactly if it is that of a path to the value. -/
theorem leads_iff {root value : Json} {text : String} :
    Leads root text value ↔
      ∃ path : NodePath, text = path.display ∧ valueAt? root path = some value := by
  constructor
  · intro h
    induction h with
    | root => exact ⟨[], rfl, rfl⟩
    | @child _ _ _ _ i _ hchildren hitem ih =>
      obtain ⟨path, rfl, hvalue⟩ := ih
      refine ⟨path ++ [i], (display_concat path i).symm, ?_⟩
      rw [valueAt?_concat, hvalue, Option.bind_some]
      exact getElem?_childItems_iff.mpr ⟨_, hchildren, hitem⟩
  · intro h
    obtain ⟨path, rfl, hvalue⟩ := h
    induction path using List.reverseRecOn generalizing value with
    | nil =>
      cases hvalue
      exact .root
    | append_singleton path i ih =>
      rw [valueAt?_concat] at hvalue
      obtain ⟨parent, hparent, hitem⟩ := Option.bind_eq_some_iff.mp hvalue
      obtain ⟨items, hchildren, hitem⟩ := getElem?_childItems_iff.mp hitem
      rw [display_concat]
      exact .child (ih hparent) hchildren hitem

/-- The text of one step of a path. -/
def stepText (i : Nat) : String := s!".children[{i}]"

/-- The number of a step stands in brackets. -/
theorem toList_stepText (i : Nat) :
    (stepText i).toList = ".children[".toList ++ (Nat.toDigits 10 i ++ [']']) := by
  have hbracket : "]".toList = [']'] := by decide
  simp only [stepText, toString, String.toList_append, Nat.toList_repr, List.append_assoc, hbracket]

/-- The text of a path is the texts of its steps behind that of the root. -/
theorem toList_display (path : NodePath) :
    path.display.toList = "root".toList ++ path.flatMap fun i => (stepText i).toList := by
  induction path using List.reverseRecOn with
  | nil => exact (List.append_nil _).symm
  | append_singleton path i ih =>
    rw [display_concat, List.flatMap_append, ← List.append_assoc, ← ih, List.flatMap_singleton]
    simp only [stepText, toString, String.toList_append, List.append_assoc]

/-- A number is told from its digits. -/
theorem eq_of_toDigits_eq {i j : Nat} (h : Nat.toDigits 10 i = Nat.toDigits 10 j) : i = j := by
  have hi : Nat.ofDigitChars 10 (Nat.toDigits 10 i) 0 = i :=
    Nat.ofDigitChars_toDigits (by decide) (by decide)
  rwa [h, Nat.ofDigitChars_toDigits (by decide) (by decide), eq_comm] at hi

/-- What stands between the brackets of a step, and behind it, is told from the text. -/
theorem eq_of_stepText_append {i j : Nat} {rest others : List Char}
    (h : (stepText i).toList ++ rest = (stepText j).toList ++ others) : i = j ∧ rest = others := by
  have hbracket : Text.isDigit ']' = false := by decide
  simp only [toList_stepText, List.append_assoc, List.singleton_append,
    List.append_cancel_left_eq] at h
  -- The digits of both numbers are those that the text begins with.
  obtain ⟨hdigits, hrest⟩ := (Text.takeWhile_dropWhile_eq_iff hbracket).mpr
    ⟨fun _ hc => Json.isDigit_of_mem_toDigits hc, h⟩
  obtain ⟨hdigits', hrest'⟩ := (Text.takeWhile_dropWhile_eq_iff hbracket).mpr
    ⟨fun _ hc => Json.isDigit_of_mem_toDigits hc,
      Eq.refl (Nat.toDigits 10 i ++ ']' :: rest)⟩
  refine ⟨eq_of_toDigits_eq (hdigits'.symm.trans hdigits), ?_⟩
  exact (List.cons.inj (hrest'.symm.trans hrest)).2

/-- Different paths have different texts. -/
theorem display_injective {path other : NodePath} (h : path.display = other.display) :
    path = other := by
  have htext := congrArg String.toList h
  rw [toList_display, toList_display, List.append_cancel_left_eq] at htext
  have hstep (i : Nat) (rest : List Char) : (stepText i).toList ++ rest ≠ [] := by
    simp [toList_stepText]
  clear h
  induction path generalizing other with
  | nil =>
    cases other with
    | nil => rfl
    | cons j other => exact absurd htext.symm (hstep j _)
  | cons i path ih =>
    cases other with
    | nil => exact absurd htext (hstep i _)
    | cons j other =>
      obtain ⟨rfl, hrest⟩ := eq_of_stepText_append htext
      rw [ih hrest]

/-- The text of a path leads to the value at its end and to no other. -/
theorem leads_display_iff {root value : Json} {path : NodePath} :
    Leads root path.display value ↔ valueAt? root path = some value := by
  rw [leads_iff]
  constructor
  · intro h
    obtain ⟨other, htext, hvalue⟩ := h
    rwa [display_injective htext]
  · intro h
    exact ⟨path, rfl, h⟩

end Document

end TreeLint
