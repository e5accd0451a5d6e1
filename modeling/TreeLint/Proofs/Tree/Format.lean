import TreeLint.Proofs.Tree.Decoding

/-!
# The format of tree documents

A node object is well formed when its fields are of the right sorts and its children, if it has the
field, are a list of well-formed node objects. This is said of the object alone, without decoding
it. Decoding accepts exactly the well-formed node objects whose numbers can be given: each reader of
a field succeeds exactly when the field is of its sort, and reading a label fails otherwise only
when a written number is in use.
-/

namespace TreeLint.Document

/-- A field that is missing or null. -/
def Absent (fields : Fields) (key : String) : Prop :=
  Table.get? fields key = none ∨ Table.get? fields key = some .null

/-- What the fields of a node object must be, apart from its children. -/
structure LabelFields (allowUnknown : Bool) (fields : Fields) : Prop where
  kind : ∃ name, Table.get? fields "kind" = some (.str name) ∧
    (allowUnknown = true ∨ ∃ kind, Kind.ofName? name = some kind)
  start : ∃ n : ℕ, Table.get? fields "pos" = some (.int n)
  stop : Absent fields "end" ∨ ∃ n : ℕ, Table.get? fields "end" = some (.int n)
  id : Absent fields "id" ∨ ∃ n : ℤ, Table.get? fields "id" = some (.int n)
  texts : ∀ key ∈ ["type", "name", "resolvedType"],
    Absent fields key ∨ ∃ text, Table.get? fields key = some (.str text)

/-- A node object of the right form, with all that hangs below it. -/
inductive WellFormed (allowUnknown : Bool) : Json → Prop where
  | leaf {fields : Fields} (hlabel : LabelFields allowUnknown fields)
      (hchildren : Table.get? fields "children" = none) : WellFormed allowUnknown (.obj fields)
  | node {fields : Fields} {items : List Json} (hlabel : LabelFields allowUnknown fields)
      (hchildren : Table.get? fields "children" = some (.arr items))
      (hitems : ∀ item ∈ items, WellFormed allowUnknown item) :
      WellFormed allowUnknown (.obj fields)

/-- The items among which the children of a node object are found. -/
def childItems (json : Json) : List Json :=
  match json.field? "children" with
  | some (.arr items) => items
  | _ => []

/-- A value found in a table is smaller than the table. -/
theorem sizeOf_lt_of_get? {fields : Fields} {key : String} {value : Json}
    (h : Table.get? fields key = some value) : sizeOf value < sizeOf fields := by
  induction fields with
  | nil => cases h
  | cons field rest ih =>
    obtain ⟨name, found⟩ := field
    rw [Table.get?] at h
    split at h
    · cases h
      simp only [List.cons.sizeOf_spec, Prod.mk.sizeOf_spec]
      omega
    · have hrest := ih h
      simp only [List.cons.sizeOf_spec]
      omega

/-- Child items are smaller than their object. -/
theorem sizeOf_lt_of_mem_childItems {json item : Json} (h : item ∈ childItems json) :
    sizeOf item < sizeOf json := by
  cases json with
  | obj fields =>
    unfold childItems at h
    split at h
    · next items hitems =>
      have hfields := sizeOf_lt_of_get? hitems
      have hitem := List.sizeOf_lt_of_mem h
      simp only [Json.arr.sizeOf_spec] at hfields
      simp only [Json.obj.sizeOf_spec]
      omega
    · cases h
  | _ => cases h

/-- What follows for a value from its child items holds for every value. -/
theorem childItems_induction {motive : Json → Prop}
    (step : ∀ json, (∀ item ∈ childItems json, motive item) → motive json) (json : Json) :
    motive json :=
  step json fun item hitem =>
    have := sizeOf_lt_of_mem_childItems hitem
    childItems_induction step item
termination_by sizeOf json

section Readers

variable {fields : Fields} {key : String}

/-- A field counts as absent exactly when it is missing or null. -/
theorem present?_eq_none_iff : present? fields key = none ↔ Absent fields key := by
  unfold present? Absent
  cases Table.get? fields key with
  | none => simp
  | some value => cases value <;> simp

/-- A field that is not null counts as what it is. -/
theorem present?_eq_some_iff {value : Json} (h : value ≠ .null) :
    present? fields key = some value ↔ Table.get? fields key = some value := by
  unfold present?
  cases Table.get? fields key with
  | none => simp
  | some found =>
    cases found with
    | null => simp [Ne.symm h]
    | _ => simp

/-- A kind is read exactly when it is a text that names a kind, or any text where unknown kinds are
allowed. -/
theorem exists_kindOf_iff {allowUnknown : Bool} :
    (∃ kind, kindOf allowUnknown fields = .ok kind) ↔
      ∃ name, Table.get? fields "kind" = some (.str name) ∧
        (allowUnknown = true ∨ ∃ kind, Kind.ofName? name = some kind) := by
  unfold kindOf
  cases Table.get? fields "kind" with
  | none => simp
  | some value =>
    cases value with
    | str name =>
      cases hknown : Kind.ofName? name with
      | some kind => simp [hknown]
      | none => cases allowUnknown <;> simp [hknown]
    | _ => simp

/-- An offset is read exactly when it is absent or a natural number. -/
theorem exists_offsetOf_iff :
    (∃ offset, offsetOf fields key = .ok offset) ↔
      Absent fields key ∨ ∃ n : ℕ, Table.get? fields key = some (.int n) := by
  have hint (n : ℕ) : Table.get? fields key = some (.int n) ↔
      present? fields key = some (.int n) := (present?_eq_some_iff (by simp)).symm
  simp only [← present?_eq_none_iff, hint, offsetOf]
  cases present? fields key with
  | none => simp
  | some value =>
    cases value with
    | int n =>
      simp only [Option.some.injEq, Json.int.injEq, reduceCtorEq, false_or]
      by_cases hn : n < 0
      · simp only [if_pos hn, reduceCtorEq, exists_const, false_iff, not_exists]
        omega
      · simp only [if_neg hn, Except.ok.injEq, exists_eq', true_iff]
        exact ⟨n.toNat, by omega⟩
    | _ => simp

/-- A start is read exactly when it is a natural number. -/
theorem exists_startOf_iff :
    (∃ start, startOf fields = .ok start) ↔
      ∃ n : ℕ, Table.get? fields "pos" = some (.int n) := by
  constructor
  · intro h
    obtain ⟨start, hstart⟩ := h
    obtain ⟨hint, hnonneg⟩ := start_of_startOf hstart
    unfold int? at hint
    split at hint
    · next n hpos =>
      cases hint
      refine ⟨start.toNat, ?_⟩
      rw [Int.toNat_of_nonneg hnonneg]
      exact (present?_eq_some_iff (by simp)).mp hpos
    · cases hint
  · intro h
    obtain ⟨n, hn⟩ := h
    have hpos : present? fields "pos" = some (.int n) := (present?_eq_some_iff (by simp)).mpr hn
    have hnot : ¬ (n : ℤ) < 0 := by omega
    exact ⟨n, by simp [startOf, offsetOf, hpos, hnot]⟩

/-- A number is read exactly when it is absent or whole, and is then the one that the object
holds. -/
theorem idOf_eq_ok_iff {written : Option Int} :
    idOf fields = .ok written ↔
      (Absent fields "id" ∨ ∃ n : ℤ, Table.get? fields "id" = some (.int n)) ∧
        written = int? fields "id" := by
  have hint (n : ℤ) : Table.get? fields "id" = some (.int n) ↔
      present? fields "id" = some (.int n) := (present?_eq_some_iff (by simp)).symm
  simp only [← present?_eq_none_iff, hint, idOf, int?]
  cases present? fields "id" with
  | none => simp [eq_comm]
  | some value => cases value <;> simp [eq_comm]

/-- A text is read exactly when it is absent or a text. -/
theorem exists_textOf_iff :
    (∃ text, textOf fields key = .ok text) ↔
      Absent fields key ∨ ∃ text, Table.get? fields key = some (.str text) := by
  have hstr (text : String) : Table.get? fields key = some (.str text) ↔
      present? fields key = some (.str text) := (present?_eq_some_iff (by simp)).symm
  simp only [← present?_eq_none_iff, hstr, textOf]
  cases present? fields key with
  | none => simp
  | some value => cases value <;> simp

end Readers

/-- A label is read exactly when the fields of its object are of the right sorts and its number can
be given. -/
theorem exists_decodeLabel_iff {allowUnknown : Bool} {fields : Fields} {progress : Progress}
    {id : Int} {ids : IdPool} :
    (∃ node next, decodeLabel allowUnknown fields progress = .ok (node, next) ∧ node.id = id ∧
        next.ids = ids) ↔
      LabelFields allowUnknown fields ∧
        progress.ids.assign (int? fields "id") = .ok (id, ids) := by
  simp only [decodeLabel, bind_eq_ok_iff]
  constructor
  · intro h
    obtain ⟨node, next, ⟨kind, hkind, start, hstart, stop, hstop, written, hwritten,
      ⟨given, pool⟩, hassign, declared, hdeclared, name, hname, resolved, hresolved, hdone⟩, rfl,
      rfl⟩ := h
    cases hdone
    obtain ⟨hid, rfl⟩ := idOf_eq_ok_iff.mp hwritten
    refine ⟨⟨exists_kindOf_iff.mp ⟨_, hkind⟩, exists_startOf_iff.mp ⟨_, hstart⟩,
      exists_offsetOf_iff.mp ⟨_, hstop⟩, hid, ?_⟩, hassign⟩
    intro key hkey
    simp only [List.mem_cons, List.not_mem_nil, or_false] at hkey
    rcases hkey with rfl | rfl | rfl
    · exact exists_textOf_iff.mp ⟨_, hdeclared⟩
    · exact exists_textOf_iff.mp ⟨_, hname⟩
    · exact exists_textOf_iff.mp ⟨_, hresolved⟩
  · intro h
    obtain ⟨hlabel, hassign⟩ := h
    obtain ⟨kind, hkind⟩ := exists_kindOf_iff.mpr hlabel.kind
    obtain ⟨start, hstart⟩ := exists_startOf_iff.mpr hlabel.start
    obtain ⟨stop, hstop⟩ := exists_offsetOf_iff.mpr hlabel.stop
    have hwritten := idOf_eq_ok_iff.mpr ⟨hlabel.id, rfl⟩
    obtain ⟨declared, hdeclared⟩ := exists_textOf_iff.mpr (hlabel.texts "type" (by simp))
    obtain ⟨name, hname⟩ := exists_textOf_iff.mpr (hlabel.texts "name" (by simp))
    obtain ⟨resolved, hresolved⟩ := exists_textOf_iff.mpr (hlabel.texts "resolvedType" (by simp))
    exact ⟨_, _, ⟨kind, hkind, start, hstart, stop, hstop, _, hwritten, _, hassign, declared,
      hdeclared, name, hname, resolved, hresolved, rfl⟩, rfl, rfl⟩

/-- Labels are read for some objects exactly when their fields are of the right sorts and their
numbers can be given one after the other. -/
theorem exists_labelled_iff {allowUnknown : Bool} {objects : List Fields} {progress : Progress}
    {before ids : List Int} (hpool : progress.ids.Holds before) :
    (∃ nodes next, Labelled allowUnknown progress objects nodes next ∧
        nodes.map Node.id = ids) ↔
      (∀ fields ∈ objects, LabelFields allowUnknown fields) ∧
        Numbered before (objects.map (int? · "id")) ids ∧
        Fresh before (objects.map (int? · "id")) ids := by
  induction objects generalizing progress before ids with
  | nil =>
    constructor
    · intro h
      obtain ⟨nodes, next, hnodes, rfl⟩ := h
      cases hnodes
      exact ⟨by simp, ⟨rfl, by simp, by simp⟩, by simp [Fresh]⟩
    · intro h
      rw [List.eq_nil_of_length_eq_zero h.2.1.length_eq]
      exact ⟨[], progress, .nil, rfl⟩
  | cons fields rest ih =>
    rw [List.map_cons, List.forall_mem_cons]
    -- The rest is numbered after the first node: its number is in the pool from then on.
    constructor
    · intro h
      obtain ⟨nodes, next, hnodes, rfl⟩ := h
      cases hnodes with
      | @cons _ middle _ _ node _ nodes hlabel hrest =>
        obtain ⟨hfields, hassign⟩ :=
          exists_decodeLabel_iff.mp ⟨node, middle, hlabel, rfl, rfl⟩
        obtain ⟨hobjects, hnumbered⟩ := (ih (hpool.assign hassign)).mp ⟨nodes, next, hrest, rfl⟩
        exact ⟨⟨hfields, hobjects⟩, numbered_fresh_cons_iff.mpr
          ⟨hpool.exists_assign_iff.mp ⟨_, hassign⟩, hnumbered⟩⟩
    · intro h
      obtain ⟨⟨hfields, hobjects⟩, hnumbered⟩ := h
      cases ids with
      | nil => cases hnumbered.1.length_eq
      | cons id ids =>
        obtain ⟨hnext, hnumbered⟩ := numbered_fresh_cons_iff.mp hnumbered
        obtain ⟨pool, hassign⟩ := hpool.exists_assign_iff.mpr hnext
        obtain ⟨node, middle, hlabel, rfl, rfl⟩ := exists_decodeLabel_iff.mpr ⟨hfields, hassign⟩
        obtain ⟨nodes, next, hrest, rfl⟩ :=
          (ih (hpool.assign hassign)).mpr ⟨hobjects, hnumbered⟩
        exact ⟨node :: nodes, next, .cons hlabel hrest, rfl⟩

/-- The field for children is missing or holds a list. -/
def ChildrenField (fields : Fields) : Prop :=
  Table.get? fields "children" = none ∨
    ∃ items, Table.get? fields "children" = some (.arr items)

/-- An object is a well-formed node object exactly when its own fields are of the right sorts and
its child items are well formed. -/
theorem wellFormed_obj_iff {allowUnknown : Bool} {fields : Fields} :
    WellFormed allowUnknown (.obj fields) ↔
      LabelFields allowUnknown fields ∧ ChildrenField fields ∧
        ∀ item ∈ childItems (.obj fields), WellFormed allowUnknown item := by
  constructor
  · intro h
    cases h with
    | leaf hlabel hchildren =>
      refine ⟨hlabel, .inl hchildren, ?_⟩
      simp [childItems, Json.field?, hchildren]
    | node hlabel hchildren hitems =>
      refine ⟨hlabel, .inr ⟨_, hchildren⟩, ?_⟩
      simpa [childItems, Json.field?, hchildren] using hitems
  · intro h
    obtain ⟨hlabel, hchildren | ⟨items, hchildren⟩, hitems⟩ := h
    · exact .leaf hlabel hchildren
    · refine .node hlabel hchildren ?_
      simpa [childItems, Json.field?, hchildren] using hitems

/-- The objects of some items are the objects of each of them. -/
theorem mem_objectsAmong {items : List Json} {fields : Fields} :
    fields ∈ objectsAmong items ↔ ∃ item ∈ items, fields ∈ objects item := by
  induction items with
  | nil => simp [objectsAmong]
  | cons item rest ih => rw [objectsAmong, List.mem_append, ih, List.exists_mem_cons_iff]

/-- The objects below an object are those of its child items. -/
theorem objects_obj (fields : Fields) :
    objects (.obj fields) = fields :: objectsAmong (childItems (.obj fields)) := by
  have hbelow : objectsBelow fields = objectsAmong (childItems (.obj fields)) := by
    unfold childItems Json.field?
    induction fields with
    | nil => rfl
    | cons field rest ih =>
      obtain ⟨key, value⟩ := field
      unfold objectsBelow
      by_cases hkey : key = "children"
      · simp only [if_pos hkey, Table.get?]
        cases value <;> rfl
      · simp only [if_neg hkey, Table.get?]
        exact ih
  rw [objects, hbelow]

/-- The children of a node object are looked for in one field. -/
theorem decodeBelow_eq (allowUnknown : Bool) (fields : Fields) (path : NodePath)
    (progress : Progress) :
    decodeBelow allowUnknown fields path progress =
      match Table.get? fields "children" with
      | none => .ok ([], progress)
      | some (.arr items) => decodeItems allowUnknown items path 0 progress
      | some _ => .error ⟨.childrenNotList, some path⟩ := by
  induction fields with
  | nil => rfl
  | cons field rest ih =>
    obtain ⟨key, value⟩ := field
    unfold decodeBelow
    by_cases hkey : key = "children"
    · simp only [if_pos hkey, Table.get?]
      cases value <;> rfl
    · simp only [if_neg hkey, Table.get?]
      exact ih

/-- Where the field for children is in order, the children are the child items. -/
theorem decodeBelow_eq_decodeItems {allowUnknown : Bool} {fields : Fields} {path : NodePath}
    {progress : Progress} (h : ChildrenField fields) :
    decodeBelow allowUnknown fields path progress =
      decodeItems allowUnknown (childItems (.obj fields)) path 0 progress := by
  rw [decodeBelow_eq, childItems, Json.field?]
  obtain hnone | ⟨items, hitems⟩ := h
  · simp only [hnone, decodeItems]
  · simp only [hitems]

/-- The children of a node object are decoded exactly when its field for them is in order and its
child items are decoded. -/
theorem decodeBelow_eq_ok_iff {allowUnknown : Bool} {fields : Fields} {path : NodePath}
    {progress next : Progress} {trees : List Tree} :
    decodeBelow allowUnknown fields path progress = .ok (trees, next) ↔
      ChildrenField fields ∧
        decodeItems allowUnknown (childItems (.obj fields)) path 0 progress =
          .ok (trees, next) := by
  have hfield (h : decodeBelow allowUnknown fields path progress = .ok (trees, next)) :
      ChildrenField fields := by
    rw [decodeBelow_eq] at h
    split at h
    · next hnone => exact .inl hnone
    · next items hitems => exact .inr ⟨items, hitems⟩
    · cases h
  constructor
  · intro h
    exact ⟨hfield h, by rw [← decodeBelow_eq_decodeItems (hfield h), h]⟩
  · intro h
    rw [decodeBelow_eq_decodeItems h.1, h.2]

/-- A node object is decoded exactly when its label is read and its child items are decoded. -/
theorem decodeNode_obj_eq_ok_iff {allowUnknown : Bool} {fields : Fields} {path : NodePath}
    {progress next : Progress} {tree : Tree} :
    decodeNode allowUnknown (.obj fields) path progress = .ok (tree, next) ↔
      ∃ node middle children,
        decodeLabel allowUnknown fields progress = .ok (node, middle) ∧ ChildrenField fields ∧
        decodeItems allowUnknown (childItems (.obj fields)) path 0 middle = .ok (children, next) ∧
        tree = .node node children := by
  constructor
  · intro h
    rw [decodeNode] at h
    split at h
    · cases h
    · next node middle hlabel =>
      split at h
      · cases h
      · next children last hbelow =>
        cases h
        obtain ⟨hfield, hitems⟩ := decodeBelow_eq_ok_iff.mp hbelow
        exact ⟨node, middle, children, hlabel, hfield, hitems, rfl⟩
  · intro h
    obtain ⟨node, middle, children, hlabel, hfield, hitems, rfl⟩ := h
    simp only [decodeNode, hlabel, decodeBelow_eq_ok_iff.mpr ⟨hfield, hitems⟩]

/-- Child items are decoded exactly when the first is, and the others are after it. -/
theorem decodeItems_cons_eq_ok_iff {allowUnknown : Bool} {item : Json} {rest : List Json}
    {path : NodePath} {index : Nat} {progress next : Progress} {trees : List Tree} :
    decodeItems allowUnknown (item :: rest) path index progress = .ok (trees, next) ↔
      ∃ tree middle others,
        decodeNode allowUnknown item (path ++ [index]) progress = .ok (tree, middle) ∧
        decodeItems allowUnknown rest path (index + 1) middle = .ok (others, next) ∧
        trees = tree :: others := by
  constructor
  · intro h
    rw [decodeItems] at h
    split at h
    · cases h
    · next tree middle hitem =>
      split at h
      · cases h
      · next others last hrest =>
        cases h
        exact ⟨tree, middle, others, hitem, hrest, rfl⟩
  · intro h
    obtain ⟨tree, middle, others, hitem, hrest, rfl⟩ := h
    simp only [decodeItems, hitem, hrest]

/-- Labels are read for some objects and then for others exactly when they are for all of them. -/
theorem exists_labelled_append_iff {allowUnknown : Bool} {progress next : Progress}
    {first second : List Fields} :
    (∃ nodes, Labelled allowUnknown progress (first ++ second) nodes next) ↔
      ∃ middle, (∃ nodes, Labelled allowUnknown progress first nodes middle) ∧
        ∃ nodes, Labelled allowUnknown middle second nodes next := by
  constructor
  · intro h
    obtain ⟨nodes, h⟩ := h
    induction first generalizing progress nodes with
    | nil => exact ⟨progress, ⟨[], .nil⟩, nodes, h⟩
    | cons fields first ih =>
      cases h with
      | cons hlabel hrest =>
        obtain ⟨middle, ⟨nodes, hfirst⟩, hsecond⟩ := ih _ hrest
        exact ⟨middle, ⟨_, .cons hlabel hfirst⟩, hsecond⟩
  · intro h
    obtain ⟨middle, ⟨nodes, hfirst⟩, others, hsecond⟩ := h
    exact ⟨_, hfirst.append hsecond⟩

/-- Child items are decoded exactly when they are well formed and their labels are read, given that
this holds for each of them. -/
theorem exists_decodeItems_iff {allowUnknown : Bool} {items : List Json}
    (hitems : ∀ item ∈ items, ∀ path progress next,
      (∃ tree, decodeNode allowUnknown item path progress = .ok (tree, next)) ↔
        WellFormed allowUnknown item ∧
          ∃ nodes, Labelled allowUnknown progress (objects item) nodes next)
    (path : NodePath) (index : Nat) (progress next : Progress) :
    (∃ trees, decodeItems allowUnknown items path index progress = .ok (trees, next)) ↔
      (∀ item ∈ items, WellFormed allowUnknown item) ∧
        ∃ nodes, Labelled allowUnknown progress (objectsAmong items) nodes next := by
  induction items generalizing index progress with
  | nil =>
    constructor
    · intro h
      obtain ⟨trees, h⟩ := h
      cases h
      exact ⟨by simp, [], .nil⟩
    · intro h
      obtain ⟨_, nodes, h⟩ := h
      cases h
      exact ⟨[], rfl⟩
  | cons item rest ih =>
    obtain ⟨hitem, hrest⟩ := List.forall_mem_cons.mp hitems
    have ih := ih hrest (index + 1)
    rw [objectsAmong, exists_labelled_append_iff, List.forall_mem_cons]
    constructor
    · intro h
      obtain ⟨trees, h⟩ := h
      obtain ⟨tree, middle, others, htree, hothers, rfl⟩ := decodeItems_cons_eq_ok_iff.mp h
      obtain ⟨hwell, hnodes⟩ := (hitem _ _ _).mp ⟨tree, htree⟩
      obtain ⟨hwells, hothers⟩ := (ih _).mp ⟨others, hothers⟩
      exact ⟨⟨hwell, hwells⟩, middle, hnodes, hothers⟩
    · intro h
      obtain ⟨⟨hwell, hwells⟩, middle, hnodes, hothers⟩ := h
      obtain ⟨tree, htree⟩ := (hitem (path ++ [index]) _ _).mpr ⟨hwell, hnodes⟩
      obtain ⟨others, hothers⟩ := (ih _).mpr ⟨hwells, hothers⟩
      exact ⟨tree :: others, decodeItems_cons_eq_ok_iff.mpr
        ⟨tree, middle, others, htree, hothers, rfl⟩⟩

/-- A node object is decoded exactly when it is well formed and the labels of its objects are
read one after the other. -/
theorem exists_decodeNode_iff {allowUnknown : Bool} (json : Json) (path : NodePath)
    (progress next : Progress) :
    (∃ tree, decodeNode allowUnknown json path progress = .ok (tree, next)) ↔
      WellFormed allowUnknown json ∧
        ∃ nodes, Labelled allowUnknown progress (objects json) nodes next := by
  induction json using childItems_induction generalizing path progress next with
  | step json ih =>
    cases json with
    | obj fields =>
      have hitems := exists_decodeItems_iff ih
      rw [wellFormed_obj_iff, objects_obj]
      constructor
      · intro h
        obtain ⟨tree, h⟩ := h
        obtain ⟨node, middle, children, hlabel, hfield, hchildren, rfl⟩ :=
          decodeNode_obj_eq_ok_iff.mp h
        have hfields := (exists_decodeLabel_iff.mp ⟨node, middle, hlabel, rfl, rfl⟩).1
        obtain ⟨hwells, nodes, hnodes⟩ := (hitems path 0 middle next).mp ⟨children, hchildren⟩
        exact ⟨⟨hfields, hfield, hwells⟩, node :: nodes, .cons hlabel hnodes⟩
      · intro h
        obtain ⟨⟨_, hfield, hwells⟩, nodes, hnodes⟩ := h
        cases hnodes with
        | @cons _ middle _ _ node _ nodes hlabel hrest =>
          obtain ⟨children, hchildren⟩ :=
            (hitems path 0 middle next).mpr ⟨hwells, nodes, hrest⟩
          exact ⟨.node node children, decodeNode_obj_eq_ok_iff.mpr
            ⟨node, middle, children, hlabel, hfield, hchildren, rfl⟩⟩
    | _ =>
      constructor
      · intro h
        obtain ⟨tree, h⟩ := h
        simp [decodeNode] at h
      · intro h
        cases h.1

/-- The objects of a well-formed node object have fields of the right sorts. -/
theorem WellFormed.labelFields {allowUnknown : Bool} {json : Json}
    (h : WellFormed allowUnknown json) : ∀ fields ∈ objects json, LabelFields allowUnknown fields := by
  induction json using childItems_induction with
  | step json ih =>
    cases json with
    | obj own =>
      obtain ⟨hlabel, _, hitems⟩ := wellFormed_obj_iff.mp h
      rw [objects_obj, List.forall_mem_cons]
      refine ⟨hlabel, fun fields hfields => ?_⟩
      obtain ⟨item, hitem, hfields⟩ := mem_objectsAmong.mp hfields
      exact ih item hitem (hitems item hitem) fields hfields
    | _ => cases h

end TreeLint.Document
