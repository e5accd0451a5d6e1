import TreeLint.Proofs.Tree.Acceptance

/-!
# Clashes of numbers

A document of the right form is refused for one reason only, a number that is in use. That need not
be a number that is written twice: a node without a number gets the least that is free so far, and a
node after it can have that very number written. Documents whose written numbers are distinct are
therefore not all accepted, and the numbers given to the other nodes decide which are.
-/

namespace TreeLint.Document

/-- An error on a number in use that names the object in which the number is written, below a value
that stands at the given path. -/
def BlamesNumber (json : Json) (path : NodePath) (e : DocumentError) : Prop :=
  ∃ id rest fields, e = ⟨.duplicateId id, some (path ++ rest)⟩ ∧
    valueAt? json rest = some (.obj fields) ∧ int? fields "id" = some id

/-- A label whose fields are of the right sorts is refused for its written number only. -/
theorem LabelFields.fault_of_decodeLabel {allowUnknown : Bool} {fields : Fields}
    {progress : Progress} {fault : DocumentFault} (hfields : LabelFields allowUnknown fields)
    (h : decodeLabel allowUnknown fields progress = .error fault) :
    ∃ id, fault = .duplicateId id ∧ int? fields "id" = some id := by
  cases hassign : progress.ids.assign (int? fields "id") with
  | ok given =>
    obtain ⟨node, next, hlabel, _⟩ := exists_decodeLabel_iff.mpr ⟨hfields, hassign⟩
    rw [hlabel] at h
    cases h
  | error clash =>
    obtain ⟨id, hwritten, _, hclash⟩ := IdPool.assign_eq_error_iff.mp hassign
    obtain ⟨kind, hkind⟩ := exists_kindOf_iff.mpr hfields.kind
    obtain ⟨start, hstart⟩ := exists_startOf_iff.mpr hfields.start
    obtain ⟨stop, hstop⟩ := exists_offsetOf_iff.mpr hfields.stop
    have hid := idOf_eq_ok_iff.mpr ⟨hfields.id, rfl⟩
    -- The number is given before the texts are read, so that it is what fails.
    simp only [decodeLabel, hkind, hstart, hstop, hid, hassign, bind, Except.bind] at h
    cases h
    exact ⟨id, hclash, hwritten⟩

/-- Child items are refused for a written number only, given that each of them is. -/
theorem blamesNumber_of_decodeItems {allowUnknown : Bool} {items : List Json}
    (hitems : ∀ item ∈ items, ∀ path progress e,
      decodeNode allowUnknown item path progress = .error e → BlamesNumber item path e)
    {path : NodePath} {index : Nat} {progress : Progress} {e : DocumentError}
    (h : decodeItems allowUnknown items path index progress = .error e) :
    ∃ place item, items[place]? = some item ∧ BlamesNumber item (path ++ [index + place]) e := by
  induction items generalizing index progress with
  | nil => cases h
  | cons item rest ih =>
    obtain ⟨hitem, hrest⟩ := List.forall_mem_cons.mp hitems
    rw [decodeItems] at h
    split at h
    · next e' hfirst =>
      cases h
      exact ⟨0, item, rfl, hitem _ _ _ hfirst⟩
    · split at h
      · next e' hothers =>
        cases h
        obtain ⟨place, other, hplace, hblames⟩ := ih hrest hothers
        refine ⟨place + 1, other, hplace, ?_⟩
        rwa [Nat.add_comm place 1, ← Nat.add_assoc]
      · cases h

/-- A well-formed node object is refused for a written number only. -/
theorem WellFormed.blamesNumber {allowUnknown : Bool} {json : Json} {path : NodePath}
    {progress : Progress} {e : DocumentError} (hwell : WellFormed allowUnknown json)
    (h : decodeNode allowUnknown json path progress = .error e) : BlamesNumber json path e := by
  induction json using childItems_induction generalizing path progress e with
  | step json ih =>
    cases json with
    | obj fields =>
      obtain ⟨hfields, hfield, hitems⟩ := wellFormed_obj_iff.mp hwell
      rw [decodeNode] at h
      split at h
      · next fault hlabel =>
        cases h
        obtain ⟨id, rfl, hid⟩ := hfields.fault_of_decodeLabel hlabel
        exact ⟨id, [], fields, by rw [List.append_nil], rfl, hid⟩
      · rw [decodeBelow_eq_decodeItems hfield] at h
        split at h
        · next e' hbelow =>
          cases h
          obtain ⟨place, item, hplace, id, rest, own, rfl, hvalue, hid⟩ :=
            blamesNumber_of_decodeItems (fun item hitem _ _ _ => ih item hitem (hitems item hitem))
              hbelow
          refine ⟨id, place :: rest, own, ?_, ?_, hid⟩
          · rw [Nat.zero_add, List.append_assoc, List.singleton_append]
          · rw [valueAt?, hplace, Option.bind_some, hvalue]
        · cases h
    | _ => cases hwell

/-- The refusal of a document of the right form names a node object and the number written in
it. -/
theorem HasForm.blamesNumber {allowUnknown : Bool} {document root : Json}
    (hform : HasForm allowUnknown document root) {e : DocumentError}
    (h : decode allowUnknown document = .error e) : BlamesNumber root [] e := by
  cases hnode : decodeNode allowUnknown root [] {} with
  | error e' =>
    obtain ⟨fileName, hfileName⟩ := hform.fileName
    obtain ⟨text, htext⟩ := hform.text
    have hroot := hform.root_eq
    cases document with
    | obj fields =>
      simp only [Json.field?] at hfileName htext hroot
      simp only [decode, hfileName, htext, hroot, hnode] at h
      cases h
      exact hform.wellFormed.blamesNumber hnode
    | _ => cases hroot
  | ok decoded =>
    obtain ⟨tree, next⟩ := decoded
    obtain ⟨loaded, hloaded⟩ := exists_decode_iff.mpr
      ⟨root, tree.ids, hform, numbered_of_decodeNode hnode⟩
    rw [hloaded] at h
    cases h

/-- A document of the right form is decoded exactly when no number is written twice in it, and none
is written after it was given to a node without one. Any other document of the right form is
refused for the number written in one of its objects. -/
theorem decode_iff_no_number_taken (allowUnknown : Bool) (document root : Json)
    (hform : HasForm allowUnknown document root) :
    ((∃ loaded, decode allowUnknown document = .ok loaded) ↔
      ∃ ids, Numbered [] (writtenIds root) ids ∧ Distinct (writtenIds root) ∧
        Untaken (writtenIds root) ids) ∧
    ∀ e, decode allowUnknown document = .error e →
      ∃ id path fields, e = ⟨.duplicateId id, some path⟩ ∧
        valueAt? root path = some (.obj fields) ∧ int? fields "id" = some id := by
  refine ⟨?_, fun e h => hform.blamesNumber h⟩
  rw [exists_decode_iff]
  constructor
  · intro h
    obtain ⟨other, ids, hother, hnumbered, hfresh⟩ := h
    cases hform.root_eq.symm.trans hother.root_eq
    exact ⟨ids, hnumbered, hnumbered.fresh_iff.mp hfresh⟩
  · intro h
    obtain ⟨ids, hnumbered, hconds⟩ := h
    exact ⟨root, ids, hform, hnumbered, hnumbered.fresh_iff.mpr hconds⟩

/-- A root without a number, over a node that has the number zero. -/
def zeroBelow : Json :=
  .obj [("kind", .str "SourceFile"), ("pos", .int 0), ("children", .arr [
    .obj [("kind", .str "Block"), ("pos", .int 0), ("id", .int 0)]])]

/-- A document in which one number is written. -/
def oneNumber : Json :=
  .obj [("fileName", .str "a.ts"), ("text", .str ""), ("root", zeroBelow)]

/-- The document with one number is of the right form. -/
theorem hasForm_oneNumber : HasForm false oneNumber zeroBelow := by
  refine ⟨⟨"a.ts", rfl⟩, ⟨"", rfl⟩, rfl, ⟨"SourceFile", rfl, by decide +kernel⟩, ?_⟩
  refine .node ⟨⟨"SourceFile", rfl, .inr ⟨.sourceFile, by decide +kernel⟩⟩, ⟨0, rfl⟩,
    .inl (.inl rfl), .inl (.inl rfl), by simp [Absent, Table.get?]⟩ rfl ?_
  intro item hitem
  cases List.mem_singleton.mp hitem
  exact .leaf ⟨⟨"Block", rfl, .inr ⟨.block, by decide +kernel⟩⟩, ⟨0, rfl⟩, .inl (.inl rfl),
    .inr ⟨0, rfl⟩, by simp [Absent, Table.get?]⟩ rfl

/-- The document with one number is refused all the same: its root was given that number. -/
theorem decode_oneNumber :
    HasForm false oneNumber zeroBelow ∧ Distinct (writtenIds zeroBelow) ∧
      decode false oneNumber = .error ⟨.duplicateId 0, some [0]⟩ := by
  have hwritten : writtenIds zeroBelow = [none, some 0] := by decide +kernel
  have hplace {place : Nat} {id : Int} (h : (writtenIds zeroBelow)[place]? = some (some id)) :
      place = 1 := by
    rw [hwritten] at h
    match place with
    | 0 => cases h
    | 1 => rfl
    | place + 2 => cases h
  refine ⟨hasForm_oneNumber, fun place other id hfirst hsecond => ?_, rfl⟩
  rw [hplace hfirst, hplace hsecond]

/-- However the document with one number is numbered, that number is given to its root first. -/
theorem not_untaken_oneNumber :
    HasForm false oneNumber zeroBelow ∧
      ¬ ∃ ids, Numbered [] (writtenIds zeroBelow) ids ∧ Distinct (writtenIds zeroBelow) ∧
        Untaken (writtenIds zeroBelow) ids := by
  refine ⟨hasForm_oneNumber, fun hids => ?_⟩
  obtain ⟨loaded, hloaded⟩ :=
    (decode_iff_no_number_taken false oneNumber zeroBelow hasForm_oneNumber).1.mpr hids
  cases hloaded

end TreeLint.Document
