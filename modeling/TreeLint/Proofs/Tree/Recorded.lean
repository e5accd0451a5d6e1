import TreeLint.Proofs.Lint.Judgements
import TreeLint.Proofs.Tree.Acceptance

/-!
# Types recorded in a document

The types found by the front end are kept in one table for the whole document, under the numbers of
the nodes. As no number is carried twice, each node finds there what its own object holds and
nothing else, and falls back on its own annotation where the object holds no type. The table has one
row for each object that holds a type.
-/

namespace TreeLint.Document

/-- A resolver answers for a vertex from an object: with the type found by the front end as it
stands, else with the annotation in normal form, else with `any`. It fails on an annotation that is
all white space, where no type was found. -/
structure AnswersAt (resolve : Types.Resolver) (fields : Fields) (vertex : Vertex) : Prop where
  found : ∀ descriptor, Table.get? fields "resolvedType" = some (.str descriptor) →
    resolve vertex = .ok descriptor
  annotated : ∀ written, Absent fields "resolvedType" →
    Table.get? fields "type" = some (.str written) → Types.normalize written ≠ "" →
    resolve vertex = .ok (Types.normalize written)
  unannotated : Absent fields "resolvedType" → Absent fields "type" → resolve vertex = .ok "any"
  fails_iff : ∀ e, resolve vertex = .error e ↔
    e = .blankType vertex.node ∧ Absent fields "resolvedType" ∧
      ∃ written, Table.get? fields "type" = some (.str written) ∧
        ∀ c ∈ written.toList, Text.isBlank c = true

/-- A resolver answers for a node from an object, at whatever vertex the node stands. -/
def Answers (resolve : Types.Resolver) (fields : Fields) (node : Node) : Prop :=
  ∀ vertex : Vertex, vertex.node = node → AnswersAt resolve fields vertex

section Texts

variable {fields : Fields} {key : String}

/-- The text under a key is what the field holds. -/
theorem text?_eq_some_iff {text : String} :
    text? fields key = some text ↔ Table.get? fields key = some (.str text) := by
  rw [← present?_eq_some_iff (by simp), text?]
  cases present? fields key with
  | none => simp
  | some value => cases value <;> simp

/-- There is no text under a key whose field is absent. -/
theorem text?_eq_none_of_absent (h : Absent fields key) : text? fields key = none := by
  rw [text?, present?_eq_none_iff.mpr h]

/-- Where a field can only be a text, there is none under its key exactly when it is absent. -/
theorem text?_eq_none_iff
    (hsort : Absent fields key ∨ ∃ text, Table.get? fields key = some (.str text)) :
    text? fields key = none ↔ Absent fields key := by
  refine ⟨fun h => ?_, text?_eq_none_of_absent⟩
  obtain habsent | ⟨text, htext⟩ := hsort
  · exact habsent
  · rw [text?_eq_some_iff.mpr htext] at h
    cases h

end Texts

/-- A descriptor is empty in normal form exactly when it is all white space. -/
theorem normalize_eq_empty_iff {written : String} :
    Types.normalize written = "" ↔ written.toList.all Text.isBlank = true := by
  rw [← Types.isEmpty_normalize, String.isEmpty_iff]

/-- The resolver of a document answers a node from the object that the node mirrors. -/
theorem Mirrors.answers {allowUnknown : Bool} {types : Table Int String} {fields : Fields}
    {node : Node} (h : Mirrors types fields node) (hfields : LabelFields allowUnknown fields) :
    Answers (.recorded types.get? (some .declared)) fields node := by
  rintro vertex rfl
  have hresolve := h.recorded_eq
  unfold descriptor? at hresolve
  refine ⟨fun descriptor hfound => ?_, fun written habsent hwritten hnormal => ?_,
    fun habsent hunwritten => ?_, fun e => ⟨fun he => ?_, fun he => ?_⟩⟩
  · rw [hresolve, text?_eq_some_iff.mpr hfound]
  · have hblank := mt normalize_eq_empty_iff.mpr hnormal
    simp only [hresolve, text?_eq_none_of_absent habsent, text?_eq_some_iff.mpr hwritten,
      if_neg hblank]
  · rw [hresolve, text?_eq_none_of_absent habsent, text?_eq_none_of_absent hunwritten]
  · -- Nothing but a blank annotation is left to fail on.
    cases hfound : text? fields "resolvedType" with
    | some descriptor => simp [hresolve, hfound] at he
    | none =>
      have habsent := (text?_eq_none_iff (hfields.texts _ (by simp))).mp hfound
      cases hwritten : text? fields "type" with
      | none => simp [hresolve, hfound, hwritten] at he
      | some written =>
        by_cases hblank : written.toList.all Text.isBlank
        · simp only [hresolve, hfound, hwritten, if_pos hblank] at he
          cases he
          exact ⟨rfl, habsent, written, text?_eq_some_iff.mp hwritten, List.all_eq_true.mp hblank⟩
        · simp [hresolve, hfound, hwritten, hblank] at he
  · obtain ⟨rfl, habsent, written, hwritten, hblank⟩ := he
    simp only [hresolve, text?_eq_none_of_absent habsent, text?_eq_some_iff.mpr hwritten,
      if_pos (List.all_eq_true.mpr hblank)]

/-- Keeping a type for a number without one adds a row exactly when there is a type. -/
theorem length_keepType {types : Table Int String} {id : Int} {descriptor : Option String}
    (h : types.get? id = none) :
    (keepType types id descriptor).length = types.length + if descriptor.isSome then 1 else 0 := by
  cases descriptor with
  | none => rfl
  | some descriptor => exact Table.length_set_of_get?_eq_none descriptor h

/-- Reading labels adds one row for each object that holds a type. -/
theorem Labelled.length_types {allowUnknown : Bool} {progress next : Progress}
    {objects : List Fields} {nodes : List Node}
    (h : Labelled allowUnknown progress objects nodes next) (hsound : progress.Sound) :
    next.types.length = progress.types.length +
      objects.countP fun fields => (text? fields "resolvedType").isSome := by
  induction h with
  | nil => rfl
  | cons hlabel _ ih =>
    -- The number was free, so that no row is overwritten.
    obtain ⟨_, _, hfree, _, htypes⟩ := decodeLabel_spec hlabel
    rw [ih (hsound.decodeLabel hlabel), htypes, length_keepType (hsound _ hfree), List.countP_cons]
    omega

/-- The resolver of a decoded document answers every node from the object of that node, and its
table has as many rows as there are objects with a type. -/
theorem resolver_answers_from_own_object (allowUnknown : Bool) (document : Json)
    (loaded : LoadedTree) (h : decode allowUnknown document = .ok loaded) :
    ∃ root, document.field? "root" = some root ∧
      Portrays (Answers loaded.resolver) root loaded.tree ∧
      loaded.types.length =
        (objects root).countP fun fields => (text? fields "resolvedType").isSome := by
  obtain ⟨root, next, _, _, hroot, htree, _, htypes⟩ := decode_eq_ok_iff.mp h
  have hlabelled := labelled_of_decodeNode htree
  have hempty : Progress.Sound {} := fun _ _ => rfl
  have hfields := ((exists_decodeNode_iff _ _ _ _).mp ⟨_, htree⟩).1.labelFields
  refine ⟨root, hroot, portrays_of_decodeNode htree ?_, ?_⟩
  · have hmirrors := (List.forall₂_and_left _ _).mpr ⟨hfields, hlabelled.mirrors hempty⟩
    refine hmirrors.imp fun fields node hboth => ?_
    rw [LoadedTree.resolver, htypes]
    exact hboth.2.answers hboth.1
  · rw [htypes, hlabelled.length_types hempty]
    exact Nat.zero_add _

/-- A document with all sorts of answers, whose nodes have written numbers or none: an empty type on
the root, then an annotation, a blank annotation, a type over another annotation, and nothing. -/
def someTypes : Json :=
  .obj [("fileName", .str "a.ts"), ("text", .str ""),
    ("root", .obj [("kind", .str "SourceFile"), ("pos", .int 0), ("resolvedType", .str ""),
      ("children", .arr [
        .obj [("kind", .str "Block"), ("pos", .int 0), ("id", .int 5), ("type", .str " a  b ")],
        .obj [("kind", .str "Block"), ("pos", .int 0), ("id", .int (-1)), ("type", .str " \t")],
        .obj [("kind", .str "Block"), ("pos", .int 0), ("type", .str "c"),
          ("resolvedType", .str " d ")],
        .obj [("kind", .str "Block"), ("pos", .int 0), ("type", .null)]])])]

/-- Every node of the document is answered from its own object, and two types are kept. -/
theorem resolver_someTypes :
    ∃ loaded root, decode false someTypes = .ok loaded ∧
      someTypes.field? "root" = some root ∧ Portrays (Answers loaded.resolver) root loaded.tree ∧
      loaded.types.length = 2 ∧
      (List.finRange loaded.source.graph.size).map
          (fun i => (loaded.resolver (loaded.source.graph.vertex i)).toOption) =
        [some "", some "a b", none, some " d ", some "any"] := by
  have hanswers : (decode false someTypes).toOption.map (fun loaded =>
      (List.finRange loaded.source.graph.size).map fun i =>
        (loaded.resolver (loaded.source.graph.vertex i)).toOption) =
      some [some "", some "a b", none, some " d ", some "any"] := by decide +kernel
  cases hloaded : decode false someTypes with
  | error e => simp [hloaded, Except.toOption] at hanswers
  | ok loaded =>
    obtain ⟨root, hroot, hportrays, hsize⟩ :=
      resolver_answers_from_own_object false someTypes loaded hloaded
    rw [hloaded] at hanswers
    refine ⟨loaded, root, rfl, hroot, hportrays, ?_, Option.some.inj hanswers⟩
    rw [hsize]
    cases hroot
    decide +kernel

end TreeLint.Document
