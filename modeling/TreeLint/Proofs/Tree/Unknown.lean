import TreeLint.Proofs.Tree.Format

/-!
# Unknown kinds

That unknown kinds are allowed is looked at in one place only, where the kind of a node object is
read. Strict decoding and decoding with unknown kinds allowed therefore run alike, object by object,
with the same numbers and the same types, up to the first unknown kind, where strict decoding stops.
And allowing unknown kinds is the same as writing the last kind for each of them and being strict.
-/

namespace TreeLint.Document

/-! ### Two runs side by side -/

/-- A strict result and one with unknown kinds allowed: the two are the same, or the strict one is
the refusal of an unknown kind. -/
def Relaxes {α : Type} (strict relaxed : Except DocumentError α) : Prop :=
  strict = relaxed ∨ ∃ name path, strict = .error ⟨.unknownKind name, path⟩

/-- Results stay side by side when the same is done after them, side by side. -/
theorem Relaxes.bind {α β : Type} {strict relaxed : Except DocumentError α}
    {f g : α → Except DocumentError β} (h : Relaxes strict relaxed)
    (hnext : ∀ a, Relaxes (f a) (g a)) : Relaxes (strict >>= f) (relaxed >>= g) := by
  rcases h with rfl | ⟨name, path, rfl⟩
  · cases strict with
    | error e => exact .inl rfl
    | ok a => exact hnext a
  · exact .inr ⟨name, path, rfl⟩

/-- Reading a kind differs only where the kind is unknown. -/
theorem kindOf_false_or (fields : Fields) :
    kindOf false fields = kindOf true fields ∨
      ∃ name, kindOf false fields = .error (.unknownKind name) := by
  unfold kindOf
  split
  · next name _ =>
    cases Kind.ofName? name with
    | some kind => exact .inl rfl
    | none => exact .inr ⟨name, rfl⟩
  · exact .inl rfl

/-- Reading a label differs only where the kind is unknown. -/
theorem relaxes_decodeLabel (fields : Fields) (path : NodePath) (progress : Progress) :
    Relaxes ((decodeLabel false fields progress).mapError fun fault => ⟨fault, some path⟩)
      ((decodeLabel true fields progress).mapError fun fault => ⟨fault, some path⟩) := by
  unfold decodeLabel
  rcases kindOf_false_or fields with hsame | ⟨name, hunknown⟩
  · rw [hsame]
    exact .inl rfl
  · rw [hunknown]
    exact .inr ⟨name, some path, rfl⟩

/-- Decoding an object reads its label and then decodes its children. -/
theorem decodeNode_obj (allowUnknown : Bool) (fields : Fields) (path : NodePath)
    (progress : Progress) :
    decodeNode allowUnknown (.obj fields) path progress =
      ((decodeLabel allowUnknown fields progress).mapError fun fault => ⟨fault, some path⟩) >>=
        fun label => decodeBelow allowUnknown fields path label.2 >>=
          fun below => .ok (.node label.1 below.1, below.2) := by
  rw [decodeNode]
  cases decodeLabel allowUnknown fields progress with
  | error fault => rfl
  | ok label =>
    dsimp only [Except.mapError, bind, Except.bind]
    cases decodeBelow allowUnknown fields path label.2 <;> rfl

/-- Decoding child items decodes the first of them and then the others. -/
theorem decodeItems_cons (allowUnknown : Bool) (item : Json) (rest : List Json) (path : NodePath)
    (index : Nat) (progress : Progress) :
    decodeItems allowUnknown (item :: rest) path index progress =
      decodeNode allowUnknown item (path ++ [index]) progress >>=
        fun first => decodeItems allowUnknown rest path (index + 1) first.2 >>=
          fun others => .ok (first.1 :: others.1, others.2) := by
  rw [decodeItems]
  cases decodeNode allowUnknown item (path ++ [index]) progress with
  | error e => rfl
  | ok first =>
    dsimp only [bind, Except.bind]
    cases decodeItems allowUnknown rest path (index + 1) first.2 <;> rfl

mutual

/-- Decoding a node object differs only where a kind is unknown. -/
theorem relaxes_decodeNode (json : Json) (path : NodePath) (progress : Progress) :
    Relaxes (decodeNode false json path progress) (decodeNode true json path progress) := by
  cases json with
  | obj fields =>
    rw [decodeNode_obj, decodeNode_obj]
    apply (relaxes_decodeLabel fields path progress).bind
    intro label
    apply (relaxes_decodeBelow fields path label.2).bind
    exact fun _ => .inl rfl
  | _ => exact .inl rfl

/-- Decoding the children of a node object differs only where a kind is unknown. -/
theorem relaxes_decodeBelow (fields : Fields) (path : NodePath) (progress : Progress) :
    Relaxes (decodeBelow false fields path progress) (decodeBelow true fields path progress) := by
  match fields with
  | [] => exact .inl rfl
  | (key, value) :: rest =>
    unfold decodeBelow
    by_cases hkey : key = "children"
    · rw [if_pos hkey, if_pos hkey]
      cases value with
      | arr items => exact relaxes_decodeItems items path 0 progress
      | _ => exact .inl rfl
    · rw [if_neg hkey, if_neg hkey]
      exact relaxes_decodeBelow rest path progress

/-- Decoding child items differs only where a kind is unknown. -/
theorem relaxes_decodeItems (items : List Json) (path : NodePath) (index : Nat)
    (progress : Progress) :
    Relaxes (decodeItems false items path index progress)
      (decodeItems true items path index progress) := by
  match items with
  | [] => exact .inl rfl
  | item :: rest =>
    rw [decodeItems_cons, decodeItems_cons]
    apply (relaxes_decodeNode item (path ++ [index]) progress).bind
    intro first
    apply (relaxes_decodeItems rest path (index + 1) first.2).bind
    exact fun _ => .inl rfl

end

/-- The text under a key of a document, which must be there. -/
def textAt (fields : Fields) (key : String) (fault : DocumentFault) : Except DocumentError String :=
  match Table.get? fields key with
  | some (.str text) => .ok text
  | _ => .error ⟨fault, none⟩

/-- The root of a document, which must be there. -/
def rootOf (fields : Fields) : Except DocumentError Json :=
  match Table.get? fields "root" with
  | some root => .ok root
  | none => .error ⟨.noRoot, none⟩

/-- What becomes of a document whose root is decoded. -/
def finish (fileName text : String) (root : Tree × Progress) : Except DocumentError LoadedTree :=
  if root.1.label.kind = .sourceFile then .ok ⟨fileName, text, root.1, root.2.types⟩
  else .error ⟨.rootKind root.1.label.kind, some []⟩

/-- Decoding a document reads its name, its text and its root, and then decodes the root. -/
theorem decode_obj (allowUnknown : Bool) (fields : Fields) :
    decode allowUnknown (.obj fields) =
      textAt fields "fileName" .fileName >>= fun fileName =>
        textAt fields "text" .text >>= fun text =>
          rootOf fields >>= fun root =>
            decodeNode allowUnknown root [] {} >>= finish fileName text := by
  rw [decode, textAt, textAt, rootOf]
  cases Table.get? fields "fileName" with
  | none => rfl
  | some first =>
    cases first with
    | str fileName =>
      cases Table.get? fields "text" with
      | none => rfl
      | some second =>
        cases second with
        | str text =>
          cases Table.get? fields "root" with
          | none => rfl
          | some root =>
            dsimp only [bind, Except.bind]
            cases decodeNode allowUnknown root [] {} <;> rfl
        | _ => rfl
    | _ => rfl

/-- Decoding a document differs only where a kind is unknown. -/
theorem relaxes_decode (document : Json) :
    Relaxes (decode false document) (decode true document) := by
  cases document with
  | obj fields =>
    rw [decode_obj, decode_obj]
    apply Relaxes.bind (.inl rfl)
    intro fileName
    apply Relaxes.bind (.inl rfl)
    intro text
    apply Relaxes.bind (.inl rfl)
    intro root
    apply (relaxes_decodeNode root [] {}).bind
    exact fun _ => .inl rfl
  | _ => exact .inl rfl

/-! ### Unknown kinds replaced -/

/-- The name of a kind, where a name that is not known gives way to that of the last kind. -/
def knownName (name : String) : String :=
  if (Kind.ofName? name).isSome then name else Kind.unknown.label

mutual

/-- A node object in which every unknown kind, its own or that of an object below it, is written as
the last kind. -/
def nameKinds : Json → Json
  | .obj fields => .obj (nameKindsIn fields)
  | value => value

/-- The fields of a node object with every unknown kind replaced. -/
def nameKindsIn : Fields → Fields
  | [] => []
  | (key, value) :: rest => (key, nameKindsAt key value) :: nameKindsIn rest

/-- The value of one field: it holds a kind, or child objects, or nothing to be replaced. -/
def nameKindsAt (key : String) : Json → Json
  | .str name => .str (if key = "kind" then knownName name else name)
  | .arr items => .arr (if key = "children" then nameKindsAmong items else items)
  | value => value

/-- Child objects with every unknown kind replaced. -/
def nameKindsAmong : List Json → List Json
  | [] => []
  | item :: rest => nameKinds item :: nameKindsAmong rest

end

/-- A document in which every unknown kind is written as the last kind. -/
def withKnownKinds : Json → Json
  | .obj fields =>
    .obj (fields.map fun field =>
      (field.1, if field.1 = "root" then nameKinds field.2 else field.2))
  | value => value

/-- A name that gives way to another is one of the last kind from then on. -/
theorem ofName?_knownName (name : String) :
    Kind.ofName? (knownName name) = some ((Kind.ofName? name).getD .unknown) := by
  unfold knownName
  cases hname : Kind.ofName? name with
  | some kind => simp [hname]
  | none =>
    simp only [Option.isSome_none, Bool.false_eq_true, if_false, Option.getD_none]
    decide +kernel

/-- Where every row keeps its key, the value at a key is what becomes of the one it had. -/
theorem get?_map_values (f : String → Json → Json) (fields : Fields) (key : String) :
    Table.get? (fields.map fun field => (field.1, f field.1 field.2)) key =
      (Table.get? fields key).map (f key) := by
  induction fields with
  | nil => rfl
  | cons field rest ih =>
    rw [List.map_cons, Table.get?, Table.get?]
    split
    · next hkey => rw [hkey, Option.map_some]
    · exact ih

/-- The fields of an object are found where they were, with what they hold replaced. -/
theorem get?_nameKindsIn (fields : Fields) (key : String) :
    Table.get? (nameKindsIn fields) key = (Table.get? fields key).map (nameKindsAt key) := by
  have hmap : nameKindsIn fields =
      fields.map fun field => (field.1, nameKindsAt field.1 field.2) := by
    induction fields with
    | nil => rfl
    | cons field rest ih => rw [nameKindsIn, ih, List.map_cons]
  rw [hmap, get?_map_values]

/-- A field that holds neither a kind nor child objects is as it was. -/
theorem nameKindsAt_of_ne {key : String} (hkind : key ≠ "kind") (hchildren : key ≠ "children")
    (value : Json) : nameKindsAt key value = value := by
  cases value with
  | str name => rw [nameKindsAt, if_neg hkind]
  | arr items => rw [nameKindsAt, if_neg hchildren]
  | _ => rw [nameKindsAt] <;> simp

/-- Fields that hold neither a kind nor child objects count as what they were. -/
theorem present?_nameKindsIn {key : String} (hkind : key ≠ "kind") (hchildren : key ≠ "children")
    (fields : Fields) : present? (nameKindsIn fields) key = present? fields key := by
  have hsame : nameKindsAt key = id := funext (nameKindsAt_of_ne hkind hchildren)
  rw [present?, present?, get?_nameKindsIn, hsame, Option.map_id, id]

/-- A kind that is allowed is read strictly once it is replaced. -/
theorem kindOf_nameKindsIn (fields : Fields) :
    kindOf false (nameKindsIn fields) = kindOf true fields := by
  rw [kindOf, kindOf, get?_nameKindsIn]
  cases Table.get? fields "kind" with
  | none => rfl
  | some value =>
    cases value with
    | str name =>
      rw [Option.map_some, nameKindsAt, if_pos rfl]
      simp only [ofName?_knownName]
      cases Kind.ofName? name <;> rfl
    | _ => rw [Option.map_some, nameKindsAt] <;> simp

/-- A label with an unknown kind allowed is read strictly once the kind is replaced. -/
theorem decodeLabel_nameKindsIn (fields : Fields) (progress : Progress) :
    decodeLabel false (nameKindsIn fields) progress = decodeLabel true fields progress := by
  have hpresent (key : String) (hkey : key ≠ "kind" ∧ key ≠ "children") :
      present? (nameKindsIn fields) key = present? fields key :=
    present?_nameKindsIn hkey.1 hkey.2 fields
  simp only [decodeLabel, kindOf_nameKindsIn, startOf, offsetOf, idOf, textOf,
    hpresent "pos" (by decide), hpresent "end" (by decide), hpresent "id" (by decide),
    hpresent "type" (by decide), hpresent "name" (by decide), hpresent "resolvedType" (by decide)]

mutual

/-- A node object with unknown kinds allowed is decoded strictly once they are replaced. -/
theorem decodeNode_nameKinds (json : Json) (path : NodePath) (progress : Progress) :
    decodeNode false (nameKinds json) path progress = decodeNode true json path progress := by
  cases json with
  | obj fields =>
    rw [nameKinds, decodeNode_obj, decodeNode_obj, decodeLabel_nameKindsIn]
    congr 1
    funext label
    rw [decodeBelow_nameKindsIn]
  | _ => rfl

/-- Children with unknown kinds allowed are decoded strictly once these are replaced. -/
theorem decodeBelow_nameKindsIn (fields : Fields) (path : NodePath) (progress : Progress) :
    decodeBelow false (nameKindsIn fields) path progress =
      decodeBelow true fields path progress := by
  match fields with
  | [] => rfl
  | (key, value) :: rest =>
    unfold nameKindsIn decodeBelow
    by_cases hkey : key = "children"
    · rw [if_pos hkey, if_pos hkey]
      cases value with
      | arr items =>
        rw [nameKindsAt, if_pos hkey]
        exact decodeItems_nameKindsAmong items path 0 progress
      | _ => rfl
    · rw [if_neg hkey, if_neg hkey]
      exact decodeBelow_nameKindsIn rest path progress

/-- Child items with unknown kinds allowed are decoded strictly once these are replaced. -/
theorem decodeItems_nameKindsAmong (items : List Json) (path : NodePath) (index : Nat)
    (progress : Progress) :
    decodeItems false (nameKindsAmong items) path index progress =
      decodeItems true items path index progress := by
  match items with
  | [] => rfl
  | item :: rest =>
    rw [nameKindsAmong, decodeItems_cons, decodeItems_cons, decodeNode_nameKinds]
    congr 1
    funext first
    rw [decodeItems_nameKindsAmong]

end

/-- A document with unknown kinds allowed is decoded strictly once they are replaced. -/
theorem decode_withKnownKinds (document : Json) :
    decode false (withKnownKinds document) = decode true document := by
  cases document with
  | obj fields =>
    have hget := get?_map_values
      (fun key value => if key = "root" then nameKinds value else value) fields
    rw [withKnownKinds, decode_obj, decode_obj]
    have hroot : rootOf (fields.map fun field =>
        (field.1, if field.1 = "root" then nameKinds field.2 else field.2)) =
          (rootOf fields).map nameKinds := by
      simp only [rootOf, hget, if_true]
      cases Table.get? fields "root" <;> rfl
    simp only [textAt, hget, String.reduceEq, if_false, Option.map_id', hroot]
    congr 1
    funext fileName
    congr 1
    funext text
    cases rootOf fields with
    | error e => rfl
    | ok root =>
      change decodeNode false (nameKinds root) [] {} >>= _ = _
      rw [decodeNode_nameKinds]
      rfl
  | _ => rfl

/-- Allowing unknown kinds changes nothing else. What is decoded strictly is decoded alike when they
are allowed, with the same tree, numbers and types. What is refused strictly for anything but an
unknown kind is refused alike, for the same fault at the same path. And decoding with unknown kinds
allowed is strict decoding of the document in which each of them is written as the last kind. -/
theorem decode_relaxes_unknown_kinds_only (document : Json) :
    (∀ loaded, decode false document = .ok loaded → decode true document = .ok loaded) ∧
    (∀ e, decode false document = .error e → (∀ name, e.fault ≠ .unknownKind name) →
      decode true document = .error e) ∧
    decode true document = decode false (withKnownKinds document) := by
  refine ⟨fun loaded hloaded => ?_, fun e herror hknown => ?_, ?_⟩
  · rcases relaxes_decode document with hsame | ⟨name, path, hunknown⟩
    · rw [← hsame, hloaded]
    · rw [hunknown] at hloaded
      cases hloaded
  · rcases relaxes_decode document with hsame | ⟨name, path, hunknown⟩
    · rw [← hsame, herror]
    · rw [hunknown] at herror
      cases herror
      exact absurd rfl (hknown name)
  · exact (decode_withKnownKinds document).symm

/-- A document with a node of the given start before two nodes of unknown kinds. -/
def strangeKinds (start : Json) : Json :=
  .obj [("fileName", .str "a.ts"), ("text", .str "x y"),
    ("root", .obj [("kind", .str "SourceFile"), ("pos", .int 0), ("children", .arr [
      .obj [("kind", .str "Block"), ("pos", start), ("children", .arr [
        .obj [("kind", .str "Widget"), ("pos", .int 0), ("resolvedType", .str "t")]])],
      .obj [("kind", .str "unknown"), ("pos", .int 2), ("id", .int 7)]])])]

/-- With a start, the document is refused for the first unknown kind only, and is decoded where
unknown kinds are allowed or replaced. Without one, it is refused for the start in any case. -/
theorem decode_strangeKinds :
    decode false (strangeKinds (.int 0)) = .error ⟨.unknownKind "Widget", some [0, 0]⟩ ∧
    (∃ loaded, decode true (strangeKinds (.int 0)) = .ok loaded ∧
      decode false (withKnownKinds (strangeKinds (.int 0))) = .ok loaded ∧
      loaded.tree.preorder.map (fun subtree => (subtree.label.kind, subtree.label.id)) =
        [(.sourceFile, 0), (.block, 1), (.unknown, 2), (.unknown, 7)]) ∧
    decode false (strangeKinds .null) = .error ⟨.noStart, some [0]⟩ ∧
    decode true (strangeKinds .null) = .error ⟨.noStart, some [0]⟩ := by
  have hlabels : (decode true (strangeKinds (.int 0))).toOption.map (fun loaded =>
      loaded.tree.preorder.map fun subtree => (subtree.label.kind, subtree.label.id)) =
      some [(.sourceFile, 0), (.block, 1), (.unknown, 2), (.unknown, 7)] := by decide +kernel
  have hrefused : decode false (strangeKinds .null) = .error ⟨.noStart, some [0]⟩ := rfl
  refine ⟨rfl, ?_, hrefused, ?_⟩
  · cases hloaded : decode true (strangeKinds (.int 0)) with
    | error e => simp [hloaded, Except.toOption] at hlabels
    | ok loaded =>
      rw [hloaded] at hlabels
      refine ⟨loaded, rfl, ?_, Option.some.inj hlabels⟩
      rw [← (decode_relaxes_unknown_kinds_only (strangeKinds (.int 0))).2.2, hloaded]
  · exact (decode_relaxes_unknown_kinds_only (strangeKinds .null)).2.1 _ hrefused (by simp)

end TreeLint.Document
