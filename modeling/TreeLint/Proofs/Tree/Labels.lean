import TreeLint.Proofs.Tree.Numbering

/-!
# Labels of node objects

What a node object says about its node is read off its fields: the kind it names, its offsets, its
annotation and its name. Decoding checks these fields in turn; where every check passes, the node
is what the object says, its number was not in use, and the type found by the front end is kept
under that number.
-/

namespace TreeLint.Document

/-- The whole number under a key, if there is one. -/
def int? (fields : Fields) (key : String) : Option Int :=
  match present? fields key with
  | some (.int n) => some n
  | _ => none

/-- The text under a key, if there is one. -/
def text? (fields : Fields) (key : String) : Option String :=
  match present? fields key with
  | some (.str s) => some s
  | _ => none

/-- The kind that an object names; names that are not known stand for the last kind. -/
def kindIn (fields : Fields) : Kind :=
  match Table.get? fields "kind" with
  | some (.str name) => (Kind.ofName? name).getD .unknown
  | _ => .unknown

/-- A node is what its object says, apart from its number. -/
structure Describes (fields : Fields) (node : Node) : Prop where
  kind : node.kind = kindIn fields
  start : some node.start = int? fields "pos"
  stop : node.stop = int? fields "end"
  declared : node.declared = text? fields "type"
  name : node.name = text? fields "name"

/-- A kind that is accepted is the one that the object names. -/
theorem kind_of_kindOf {allowUnknown : Bool} {fields : Fields} {kind : Kind}
    (h : kindOf allowUnknown fields = .ok kind) : kind = kindIn fields := by
  unfold kindOf at h
  unfold kindIn
  cases hvalue : Table.get? fields "kind" with
  | none =>
    rw [hvalue] at h
    cases h
  | some value =>
    rw [hvalue] at h
    cases value with
    | str name =>
      cases hknown : Kind.ofName? name with
      | some known =>
        simp only [hknown, Except.ok.injEq] at h
        simp only [hknown, h, Option.getD_some]
      | none =>
        cases allowUnknown with
        | true =>
          simp only [hknown, if_true, Except.ok.injEq] at h
          simp only [hknown, h, Option.getD_none]
        | false => simp [hknown] at h
    | _ => cases h

/-- An offset that is accepted is the one that the object holds. -/
theorem offset_of_offsetOf {fields : Fields} {key : String} {offset : Option Int}
    (h : offsetOf fields key = .ok offset) :
    offset = int? fields key ∧ ∀ n, offset = some n → 0 ≤ n := by
  unfold offsetOf at h
  unfold int?
  split at h
  · next hnone =>
    cases h
    simp [hnone]
  · next n hint =>
    split at h
    · cases h
    · next hn =>
      cases h
      simp only [hint, true_and]
      intro m hm
      cases hm
      omega
  · cases h

/-- A start that is accepted is the one that the object holds. -/
theorem start_of_startOf {fields : Fields} {start : Int} (h : startOf fields = .ok start) :
    some start = int? fields "pos" ∧ 0 ≤ start := by
  unfold startOf at h
  cases hoffset : offsetOf fields "pos" with
  | error e => simp [hoffset] at h
  | ok offset =>
    cases offset with
    | none => simp [hoffset] at h
    | some n =>
      simp only [hoffset, Except.ok.injEq] at h
      obtain ⟨hint, hnonneg⟩ := offset_of_offsetOf hoffset
      rw [← h]
      exact ⟨hint, hnonneg n rfl⟩

/-- A text that is accepted is the one that the object holds. -/
theorem text_of_textOf {fields : Fields} {key : String} {text : Option String}
    (h : textOf fields key = .ok text) : text = text? fields key := by
  unfold textOf at h
  unfold text?
  split at h
  · next hnone =>
    cases h
    rw [hnone]
  · next s hstr =>
    cases h
    rw [hstr]
  · cases h

/-- A computation that goes on after another succeeds exactly when both do. -/
theorem bind_eq_ok_iff {ε α β : Type} {x : Except ε α} {f : α → Except ε β} {b : β} :
    x >>= f = .ok b ↔ ∃ a, x = .ok a ∧ f a = .ok b := by
  cases x with
  | error e => simp [bind, Except.bind]
  | ok a => simp [bind, Except.bind]

/-- Decoding a label gives what its object says under a number that was not in use, and keeps the
type that the object holds. -/
theorem decodeLabel_spec {allowUnknown : Bool} {fields : Fields} {progress next : Progress}
    {node : Node} (h : decodeLabel allowUnknown fields progress = .ok (node, next)) :
    Describes fields node ∧ 0 ≤ node.start ∧ node.id ∉ progress.ids.used ∧
      next.ids.used = node.id :: progress.ids.used ∧
      next.types = keepType progress.types node.id (text? fields "resolvedType") := by
  simp only [decodeLabel, bind_eq_ok_iff] at h
  obtain ⟨kind, hkind, start, hstart, stop, hstop, written, _, ⟨id, ids⟩, hassign, declared,
    hdeclared, name, hname, resolved, hresolved, hdone⟩ := h
  cases hdone
  obtain ⟨hstart, hnonneg⟩ := start_of_startOf hstart
  obtain ⟨hfree, hused⟩ := IdPool.assign_spec hassign
  refine ⟨⟨kind_of_kindOf hkind, hstart, (offset_of_offsetOf hstop).1, text_of_textOf hdeclared,
    text_of_textOf hname⟩, hnonneg, hfree, hused, ?_⟩
  rw [← text_of_textOf hresolved]

end TreeLint.Document
