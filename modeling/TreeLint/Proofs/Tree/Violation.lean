import TreeLint.Proofs.Tree.Format

/-!
# Violated conditions of a node

A value that stands for a node must pass a number of checks, which are made in a fixed order. What
it is to violate a check, and what is reported then, is said of the value and of the numbers that
nodes before it carry, without decoding anything. Reading a single value, its children left aside,
reports the first violated check, and succeeds exactly when no check is violated. The words for a
fault are given apart from the function that finds them.
-/

namespace TreeLint.Document

/-- A check that a value must pass to stand for a node. -/
inductive NodeCheck where
  | object
  | kind
  | start
  | stop
  | id
  | text (key : String)
  | children

/-- The checks in the order in which they are made. -/
def NodeCheck.order : List NodeCheck :=
  [.object, .kind, .start, .stop, .id, .text "type", .text "name", .text "resolvedType", .children]

/-- A field that is there but is no natural number. -/
def WrongOffset (fields : Fields) (key : String) : Prop :=
  ¬ Absent fields key ∧ ∀ n : ℕ, Table.get? fields key ≠ some (.int n)

/-- A value violates a check after nodes with the given numbers, which is reported by a fault. -/
inductive Violates (allowUnknown : Bool) (before : List Int) :
    NodeCheck → Json → DocumentFault → Prop where
  | object {value : Json} (h : ∀ fields, value ≠ .obj fields) :
      Violates allowUnknown before .object value .nodeNotObject
  | noKind {fields : Fields} (h : ∀ name, Table.get? fields "kind" ≠ some (.str name)) :
      Violates allowUnknown before .kind (.obj fields) .noKind
  | unknownKind {fields : Fields} {name : String} (hallow : allowUnknown = false)
      (hkind : Table.get? fields "kind" = some (.str name)) (h : Kind.ofName? name = none) :
      Violates allowUnknown before .kind (.obj fields) (.unknownKind name)
  | noStart {fields : Fields} (h : Absent fields "pos") :
      Violates allowUnknown before .start (.obj fields) .noStart
  | badStart {fields : Fields} (h : WrongOffset fields "pos") :
      Violates allowUnknown before .start (.obj fields) (.badOffset "pos")
  | badStop {fields : Fields} (h : WrongOffset fields "end") :
      Violates allowUnknown before .stop (.obj fields) (.badOffset "end")
  | badId {fields : Fields} (hpresent : ¬ Absent fields "id")
      (h : ∀ n : ℤ, Table.get? fields "id" ≠ some (.int n)) :
      Violates allowUnknown before .id (.obj fields) .badId
  | takenId {fields : Fields} {id : ℤ} (hid : Table.get? fields "id" = some (.int id))
      (h : id ∈ before) : Violates allowUnknown before .id (.obj fields) (.duplicateId id)
  | notText {fields : Fields} {key : String} (hpresent : ¬ Absent fields key)
      (h : ∀ text, Table.get? fields key ≠ some (.str text)) :
      Violates allowUnknown before (.text key) (.obj fields) (.notText key)
  | children {fields : Fields} (h : ¬ ChildrenField fields) :
      Violates allowUnknown before .children (.obj fields) .childrenNotList

/-- The words for a fault that concerns a node. -/
inductive FaultWords : DocumentFault → String → Prop where
  | object : FaultWords .nodeNotObject "node must be an object"
  | noKind : FaultWords .noKind "node is missing a 'kind' string"
  | unknownKind (name : String) :
      FaultWords (.unknownKind name) ("unknown node kind '" ++ name ++ "'")
  | noStart : FaultWords .noStart "node is missing 'pos'"
  | badOffset (key : String) :
      FaultWords (.badOffset key) ("'" ++ key ++ "' must be a non-negative integer")
  | badId : FaultWords .badId "'id' must be an integer"
  | takenId (id : ℤ) : FaultWords (.duplicateId id) ("duplicate node id " ++ toString id)
  | notText (key : String) : FaultWords (.notText key) ("'" ++ key ++ "' must be a string")
  | children : FaultWords .childrenNotList "'children' must be a list"
  | rootKind (kind : Kind) :
      FaultWords (.rootKind kind) ("root must be a SourceFile node, got " ++ kind.label)

/-- A value violates no check after nodes with the given numbers. -/
def Sound (allowUnknown : Bool) (before : List Int) (value : Json) : Prop :=
  ∀ check ∈ NodeCheck.order, ∀ fault, ¬ Violates allowUnknown before check value fault

/-- The first of some checks that a value violates is reported by a fault. -/
def FirstViolated (allowUnknown : Bool) (before : List Int) (checks : List NodeCheck)
    (value : Json) (fault : DocumentFault) : Prop :=
  ∃ front check back, checks = front ++ check :: back ∧
    Violates allowUnknown before check value fault ∧
    ∀ earlier ∈ front, ∀ other, ¬ Violates allowUnknown before earlier value other

section

variable {allowUnknown : Bool} {before : List Int} {value : Json} {fault : DocumentFault}
  {check : NodeCheck} {checks : List NodeCheck}

/-- The fault of a violated check is told in the words for it. -/
theorem Violates.faultWords (h : Violates allowUnknown before check value fault) :
    FaultWords fault fault.message := by
  cases h with
  | object => exact .object
  | noKind => exact .noKind
  | unknownKind => exact .unknownKind _
  | noStart => exact .noStart
  | badStart => exact .badOffset _
  | badStop => exact .badOffset _
  | badId => exact .badId
  | takenId => exact .takenId _
  | notText => exact .notText _
  | children => exact .children

/-- Without checks nothing is violated. -/
theorem not_firstViolated_nil : ¬ FirstViolated allowUnknown before [] value fault := by
  intro h
  obtain ⟨front, check, back, hchecks, _⟩ := h
  simp at hchecks

/-- The first violated check is the first of all, or it is among the others. -/
theorem firstViolated_cons_iff :
    FirstViolated allowUnknown before (check :: checks) value fault ↔
      Violates allowUnknown before check value fault ∨
        (∀ other, ¬ Violates allowUnknown before check value other) ∧
          FirstViolated allowUnknown before checks value fault := by
  constructor
  · intro h
    obtain ⟨front, found, back, hchecks, hfound, hfront⟩ := h
    cases front with
    | nil =>
      cases hchecks
      exact .inl hfound
    | cons first front =>
      cases hchecks
      obtain ⟨hfirst, hfront⟩ := List.forall_mem_cons.mp hfront
      exact .inr ⟨hfirst, front, found, back, rfl, hfound, hfront⟩
  · intro h
    rcases h with hcheck | ⟨hcheck, front, found, back, rfl, hfound, hfront⟩
    · exact ⟨[], check, checks, rfl, hcheck, by simp⟩
    · exact ⟨check :: front, found, back, rfl, hfound, List.forall_mem_cons.mpr ⟨hcheck, hfront⟩⟩

/-- A single check is the first violated one exactly when it is violated. -/
theorem firstViolated_singleton_iff :
    FirstViolated allowUnknown before [check] value fault ↔
      Violates allowUnknown before check value fault := by
  simp [firstViolated_cons_iff, not_firstViolated_nil]

/-- Where a check is violated, one of them is the first. -/
theorem exists_firstViolated_iff :
    (∃ fault, FirstViolated allowUnknown before checks value fault) ↔
      ∃ check ∈ checks, ∃ fault, Violates allowUnknown before check value fault := by
  induction checks with
  | nil => simp [not_firstViolated_nil]
  | cons check checks ih =>
    simp only [firstViolated_cons_iff, List.exists_mem_cons_iff, ← ih, exists_or,
      exists_and_left]
    by_cases hcheck : ∃ fault, Violates allowUnknown before check value fault
    · simp only [hcheck, true_or]
    · simp only [not_exists.mp hcheck, exists_false, not_false_eq_true, implies_true, true_and]

/-- Some check is the first violated one exactly when a value is not sound. -/
theorem exists_firstViolated_order_iff :
    (∃ fault, FirstViolated allowUnknown before NodeCheck.order value fault) ↔
      ¬ Sound allowUnknown before value := by
  rw [exists_firstViolated_iff, Sound]
  push Not
  rfl

end

/-! ### Readers -/

section Readers

variable {allowUnknown : Bool} {before : List Int} {fields : Fields} {fault : DocumentFault}

/-- Reading a kind reports what is wrong with it. -/
theorem kindOf_eq_error_iff :
    kindOf allowUnknown fields = .error fault ↔
      Violates allowUnknown before .kind (.obj fields) fault := by
  constructor
  · intro h
    unfold kindOf at h
    split at h
    · next name hname =>
      split at h
      · cases h
      · next hunknown =>
        split at h
        · cases h
        · next hallow =>
          cases h
          exact .unknownKind (Bool.eq_false_iff.mpr hallow) hname hunknown
    · next hkind =>
      cases h
      exact .noKind hkind
  · intro h
    cases h with
    | noKind h =>
      unfold kindOf
      split
      · next name hname => exact absurd hname (h name)
      · rfl
    | unknownKind hallow hkind h => simp [kindOf, hkind, h, hallow]

/-- A computation that can fail with one fault only fails exactly when it does not succeed. -/
theorem eq_error_iff_of_fault {α : Type} {x : Except DocumentFault α} {expected : DocumentFault}
    (h : ∀ fault, x = .error fault → fault = expected) :
    x = .error fault ↔ (¬ ∃ a, x = .ok a) ∧ fault = expected := by
  cases x with
  | ok a => simp
  | error found => simp [h found rfl, eq_comm]

/-- Reading an offset reports that it is there but no natural number. -/
theorem offsetOf_eq_error_iff {key : String} :
    offsetOf fields key = .error fault ↔ WrongOffset fields key ∧ fault = .badOffset key := by
  have hfault (fault : DocumentFault) (h : offsetOf fields key = .error fault) :
      fault = .badOffset key := by
    unfold offsetOf at h
    split at h
    · cases h
    · split at h
      · cases h
        rfl
      · cases h
    · cases h
      rfl
  rw [eq_error_iff_of_fault hfault, exists_offsetOf_iff, not_or, not_exists]
  rfl

/-- Reading an offset finds none exactly when it is absent. -/
theorem offsetOf_eq_none_iff {key : String} :
    offsetOf fields key = .ok none ↔ Absent fields key := by
  rw [← present?_eq_none_iff, offsetOf]
  cases present? fields key with
  | none => simp
  | some value =>
    cases value with
    | int n => by_cases hn : n < 0 <;> simp [hn]
    | _ => simp

/-- Reading a start reports that it is absent or no natural number. -/
theorem startOf_eq_error_iff :
    startOf fields = .error fault ↔ Violates allowUnknown before .start (.obj fields) fault := by
  have hstart : startOf fields = .error fault ↔
      offsetOf fields "pos" = .ok none ∧ fault = .noStart ∨
        offsetOf fields "pos" = .error fault := by
    unfold startOf
    cases offsetOf fields "pos" with
    | error found => simp
    | ok offset => cases offset <;> simp [eq_comm]
  rw [hstart, offsetOf_eq_none_iff, offsetOf_eq_error_iff]
  constructor
  · intro h
    rcases h with ⟨habsent, rfl⟩ | ⟨hwrong, rfl⟩
    · exact .noStart habsent
    · exact .badStart hwrong
  · intro h
    cases h with
    | noStart h => exact .inl ⟨h, rfl⟩
    | badStart h => exact .inr ⟨h, rfl⟩

/-- Reading an end reports that it is no natural number. -/
theorem stopOf_eq_error_iff :
    offsetOf fields "end" = .error fault ↔
      Violates allowUnknown before .stop (.obj fields) fault := by
  rw [offsetOf_eq_error_iff]
  constructor
  · intro h
    obtain ⟨hwrong, rfl⟩ := h
    exact .badStop hwrong
  · intro h
    cases h with
    | badStop h => exact ⟨h, rfl⟩

/-- Reading a text reports that it is there but no text. -/
theorem textOf_eq_error_iff {key : String} :
    textOf fields key = .error fault ↔
      Violates allowUnknown before (.text key) (.obj fields) fault := by
  have hfault (fault : DocumentFault) (h : textOf fields key = .error fault) :
      fault = .notText key := by
    unfold textOf at h
    split at h
    · cases h
    · cases h
    · cases h
      rfl
  rw [eq_error_iff_of_fault hfault, exists_textOf_iff, not_or, not_exists]
  constructor
  · intro h
    obtain ⟨⟨hpresent, htext⟩, rfl⟩ := h
    exact .notText hpresent htext
  · intro h
    cases h with
    | notText hpresent h => exact ⟨⟨hpresent, h⟩, rfl⟩

/-- A whole number is found under a key exactly when the field holds it. -/
theorem int?_eq_some_iff {key : String} {n : ℤ} :
    int? fields key = some n ↔ Table.get? fields key = some (.int n) := by
  rw [← present?_eq_some_iff (by simp), int?]
  cases present? fields key with
  | none => simp
  | some value => cases value <;> simp

/-- A computation that goes on after another fails exactly when one of them does. -/
theorem bind_eq_error_iff {ε α β : Type} {x : Except ε α} {f : α → Except ε β} {e : ε} :
    x >>= f = .error e ↔ x = .error e ∨ ∃ a, x = .ok a ∧ f a = .error e := by
  cases x with
  | error found => simp [bind, Except.bind]
  | ok a => simp [bind, Except.bind]

/-- Numbering a node reports that its number is not whole, or is carried by a node before. -/
theorem idOf_bind_assign_eq_error_iff {pool : IdPool} (hpool : pool.Holds before) :
    idOf fields >>= pool.assign = .error fault ↔
      Violates allowUnknown before .id (.obj fields) fault := by
  have hfault (fault : DocumentFault) (h : idOf fields = .error fault) : fault = .badId := by
    unfold idOf at h
    split at h
    · cases h
    · cases h
    · cases h
      rfl
  simp only [bind_eq_error_iff, eq_error_iff_of_fault hfault, idOf_eq_ok_iff,
    IdPool.assign_eq_error_iff, hpool.used_eq, List.mem_reverse, exists_and_left, exists_eq,
    and_true, not_or, not_exists]
  constructor
  · intro h
    rcases h with ⟨⟨hpresent, hid⟩, rfl⟩ | ⟨_, ⟨_, rfl⟩, id, hid, hmem, rfl⟩
    · exact .badId hpresent hid
    · exact .takenId (int?_eq_some_iff.mp hid) hmem
  · intro h
    cases h with
    | badId hpresent h => exact .inl ⟨⟨hpresent, h⟩, rfl⟩
    | @takenId _ id hid h =>
      exact .inr ⟨_, ⟨.inr ⟨id, hid⟩, rfl⟩, id, int?_eq_some_iff.mpr hid, h, rfl⟩

end Readers

/-! ### Reading a value -/

/-- The children of a node object, if the field is there, are a list. -/
def checkChildren (fields : Fields) (progress : Progress) : Except DocumentFault Progress :=
  match Table.get? fields "children" with
  | none => .ok progress
  | some (.arr _) => .ok progress
  | some _ => .error .childrenNotList

/-- Read a value that stands for a node, its child items left aside. -/
def readNode (allowUnknown : Bool) (progress : Progress) : Json → Except DocumentFault Progress
  | .obj fields => do
    let (_, next) ← decodeLabel allowUnknown fields progress
    checkChildren fields next
  | _ => .error .nodeNotObject

/-- The number that is written in a value, if there is one. -/
def writtenId : Json → Option Int
  | .obj fields => int? fields "id"
  | _ => none

section Reading

variable {allowUnknown : Bool} {before : List Int} {fields : Fields} {progress next : Progress}
  {value : Json} {fault : DocumentFault}

/-- A value that is no object is reported as such. -/
theorem violates_object_iff :
    Violates allowUnknown before .object value fault ↔
      (∀ fields, value ≠ .obj fields) ∧ fault = .nodeNotObject := by
  constructor
  · intro h
    cases h with
    | object h => exact ⟨h, rfl⟩
  · intro h
    obtain ⟨hvalue, rfl⟩ := h
    exact .object hvalue

/-- A value that is no object is not read. -/
theorem readNode_of_not_object (h : ∀ fields, value ≠ .obj fields) :
    readNode allowUnknown progress value = .error .nodeNotObject := by
  cases value with
  | obj fields => exact absurd rfl (h fields)
  | _ => rfl

/-- Children in order are passed over. -/
theorem checkChildren_of_childrenField (h : ChildrenField fields) :
    checkChildren fields progress = .ok progress := by
  rcases h with hnone | ⟨items, hitems⟩
  · rw [checkChildren, hnone]
  · rw [checkChildren, hitems]

/-- Children that are no list are refused. -/
theorem checkChildren_of_not_childrenField (h : ¬ ChildrenField fields) :
    checkChildren fields progress = .error .childrenNotList := by
  unfold checkChildren
  split
  · next hnone => exact absurd (.inl hnone) h
  · next items hitems => exact absurd (.inr ⟨items, hitems⟩) h
  · rfl

/-- Children are reported when they are no list. -/
theorem checkChildren_eq_error_iff :
    checkChildren fields progress = .error fault ↔
      Violates allowUnknown before .children (.obj fields) fault := by
  constructor
  · intro h
    by_cases hfield : ChildrenField fields
    · rw [checkChildren_of_childrenField hfield] at h
      cases h
    · rw [checkChildren_of_not_childrenField hfield] at h
      cases h
      exact .children hfield
  · intro h
    cases h with
    | children h => exact checkChildren_of_not_childrenField h

/-- A computation that reports a check and goes on with others reports the first violated one. -/
theorem bind_eq_error_iff_firstViolated {α β : Type} {check : NodeCheck}
    {checks : List NodeCheck} {x : Except DocumentFault α} {f : α → Except DocumentFault β}
    (hx : ∀ fault, x = .error fault ↔ Violates allowUnknown before check value fault)
    (hf : ∀ a, f a = .error fault ↔ FirstViolated allowUnknown before checks value fault) :
    x >>= f = .error fault ↔
      FirstViolated allowUnknown before (check :: checks) value fault := by
  rw [bind_eq_error_iff, firstViolated_cons_iff, hx fault]
  apply or_congr_right
  simp only [hf, exists_and_right, ← hx]
  cases x with
  | error found => simp
  | ok a => simp

/-- Reading an object reports the first check that its fields violate. -/
theorem readNode_obj_eq_error_iff (hpool : progress.ids.Holds before) :
    readNode allowUnknown progress (.obj fields) = .error fault ↔
      FirstViolated allowUnknown before NodeCheck.order.tail (.obj fields) fault := by
  simp only [readNode, decodeLabel, bind_assoc, pure_bind]
  refine bind_eq_error_iff_firstViolated (fun _ => kindOf_eq_error_iff) fun kind => ?_
  refine bind_eq_error_iff_firstViolated (fun _ => startOf_eq_error_iff) fun start => ?_
  refine bind_eq_error_iff_firstViolated (fun _ => stopOf_eq_error_iff) fun stop => ?_
  -- That a number is whole and that it is new are one check, made in two steps.
  rw [← bind_assoc]
  refine bind_eq_error_iff_firstViolated
    (fun _ => idOf_bind_assign_eq_error_iff hpool) fun ⟨id, ids⟩ => ?_
  refine bind_eq_error_iff_firstViolated (fun _ => textOf_eq_error_iff) fun declared => ?_
  refine bind_eq_error_iff_firstViolated (fun _ => textOf_eq_error_iff) fun name => ?_
  refine bind_eq_error_iff_firstViolated (fun _ => textOf_eq_error_iff) fun resolved => ?_
  rw [firstViolated_singleton_iff]
  exact checkChildren_eq_error_iff

/-- Reading a value reports the first check that it violates. -/
theorem readNode_eq_error_iff (hpool : progress.ids.Holds before) :
    readNode allowUnknown progress value = .error fault ↔
      FirstViolated allowUnknown before NodeCheck.order value fault := by
  rw [NodeCheck.order, firstViolated_cons_iff]
  by_cases hobject : ∃ fields, value = .obj fields
  · obtain ⟨fields, rfl⟩ := hobject
    simp only [violates_object_iff, ne_eq, Json.obj.injEq, forall_eq', false_and,
      not_false_eq_true, implies_true, true_and, false_or]
    exact readNode_obj_eq_error_iff hpool
  · have hvalue := not_exists.mp hobject
    simp only [violates_object_iff, readNode_of_not_object hvalue]
    simp [hvalue, eq_comm]

/-- Reading a value succeeds exactly when it violates no check. -/
theorem exists_readNode_iff (hpool : progress.ids.Holds before) :
    (∃ next, readNode allowUnknown progress value = .ok next) ↔
      Sound allowUnknown before value := by
  rw [← not_iff_not, ← exists_firstViolated_order_iff]
  simp only [← readNode_eq_error_iff hpool]
  cases readNode allowUnknown progress value <;> simp

/-- A value that is read carries the next number, which is in use from then on. -/
theorem exists_isCarried_of_readNode (hpool : progress.ids.Holds before)
    (h : readNode allowUnknown progress value = .ok next) :
    ∃ id, IdPool.IsCarried before (writtenId value) id ∧ next.ids.Holds (before ++ [id]) := by
  cases value with
  | obj fields =>
    obtain ⟨⟨node, middle⟩, hlabel, hchildren⟩ := bind_eq_ok_iff.mp h
    have hnext : middle = next := by
      by_cases hfield : ChildrenField fields
      · exact Except.ok.inj ((checkChildren_of_childrenField hfield).symm.trans hchildren)
      · cases (checkChildren_of_not_childrenField hfield).symm.trans hchildren
    obtain ⟨_, hassign⟩ := exists_decodeLabel_iff.mp ⟨node, middle, hlabel, rfl, rfl⟩
    have hcarried := (IdPool.isNext_iff.mp (hpool.exists_assign_iff.mp ⟨_, hassign⟩)).1
    rw [← hnext]
    exact ⟨node.id, hcarried, hpool.assign hassign⟩
  | _ => cases h

end Reading

/-! ### What a value is judged by -/

/-- The fields of a node object that are read. -/
def labelKeys : List String :=
  ["kind", "pos", "end", "id", "type", "name", "resolvedType"]

/-- Two values look the same when their child items are left aside: both are objects with the same
label, and with children that are both in order or both not, or neither is an object. -/
inductive SameFace : Json → Json → Prop where
  | object {fields others : Fields}
      (hlabel : ∀ key ∈ labelKeys, Table.get? fields key = Table.get? others key)
      (hchildren : ChildrenField fields ↔ ChildrenField others) :
      SameFace (.obj fields) (.obj others)
  | other {value other : Json} (hvalue : ∀ fields, value ≠ .obj fields)
      (hother : ∀ fields, other ≠ .obj fields) : SameFace value other

/-- A label is read off its fields. -/
theorem decodeLabel_congr {allowUnknown : Bool} {fields others : Fields} {progress : Progress}
    (h : ∀ key ∈ labelKeys, Table.get? fields key = Table.get? others key) :
    decodeLabel allowUnknown fields progress = decodeLabel allowUnknown others progress := by
  simp only [labelKeys, List.forall_mem_cons] at h
  obtain ⟨hkind, hpos, hend, hid, htype, hname, hresolved, _⟩ := h
  simp only [decodeLabel, kindOf, startOf, offsetOf, idOf, textOf, present?, hkind, hpos, hend,
    hid, htype, hname, hresolved]

/-- Children are judged by whether they are in order. -/
theorem checkChildren_congr {fields others : Fields} {progress : Progress}
    (h : ChildrenField fields ↔ ChildrenField others) :
    checkChildren fields progress = checkChildren others progress := by
  by_cases hfield : ChildrenField fields
  · rw [checkChildren_of_childrenField hfield, checkChildren_of_childrenField (h.mp hfield)]
  · rw [checkChildren_of_not_childrenField hfield,
      checkChildren_of_not_childrenField (mt h.mpr hfield)]

/-- Values that look the same are read alike. -/
theorem SameFace.readNode_eq {allowUnknown : Bool} {progress : Progress} {value other : Json}
    (h : SameFace value other) :
    readNode allowUnknown progress value = readNode allowUnknown progress other := by
  cases h with
  | object hlabel hchildren =>
    simp only [readNode, decodeLabel_congr hlabel, checkChildren_congr hchildren]
  | other hvalue hother => rw [readNode_of_not_object hvalue, readNode_of_not_object hother]

end TreeLint.Document
