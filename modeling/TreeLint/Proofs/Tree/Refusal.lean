import TreeLint.Proofs.Tree.Acceptance
import TreeLint.Proofs.Tree.Places
import TreeLint.Proofs.Tree.Violation

/-!
# The first fault of a document

Decoding follows the nesting of a document, but it reads its values one after the other: those that
stand for nodes, in pre-order, until one of them violates a check. A document with a name, a text
and a root is refused at the first value that violates one, with the first check that it violates,
and only where no value does, for the kind of its root. The path that is reported leads to the
value at fault, and nothing behind that value matters.
-/

namespace TreeLint.Document

/-- Read the value at a place of a document; faults are reported with its path. -/
def readPlace (allowUnknown : Bool) (progress : Progress) (site : NodePath × Json) :
    Except DocumentError Progress :=
  (readNode allowUnknown progress site.2).mapError fun fault => ⟨fault, some site.1⟩

/-! ### Decoding place by place -/

section Decoding

variable {allowUnknown : Bool}

/-- Child items are read where their field is in order. -/
theorem map_snd_decodeBelow (fields : Fields) (path : NodePath) (progress : Progress) :
    (decodeBelow allowUnknown fields path progress).map Prod.snd =
      ((checkChildren fields progress).mapError fun fault => ⟨fault, some path⟩) >>= fun next =>
        (decodeItems allowUnknown (childItems (.obj fields)) path 0 next).map Prod.snd := by
  rw [decodeBelow_eq, checkChildren, childItems, Json.field?]
  cases Table.get? fields "children" with
  | none => simp [decodeItems, Except.map, Except.mapError, bind, Except.bind]
  | some value => cases value <;> rfl

/-- Decoding child items reads the values at their places, given that this holds for each of
them. -/
theorem map_snd_decodeItems {items : List Json}
    (hitems : ∀ item ∈ items, ∀ path progress,
      (decodeNode allowUnknown item path progress).map Prod.snd =
        (places item path).foldlM (readPlace allowUnknown) progress)
    (path : NodePath) (index : Nat) (progress : Progress) :
    (decodeItems allowUnknown items path index progress).map Prod.snd =
      (placesAmong items path index).foldlM (readPlace allowUnknown) progress := by
  induction items generalizing index progress with
  | nil => rfl
  | cons item rest ih =>
    obtain ⟨hitem, hrest⟩ := List.forall_mem_cons.mp hitems
    rw [placesAmong, List.foldlM_append, ← hitem, decodeItems]
    cases decodeNode allowUnknown item (path ++ [index]) progress with
    | error e => rfl
    | ok decoded =>
      obtain ⟨tree, middle⟩ := decoded
      dsimp only [Except.map, bind, Except.bind]
      rw [← ih hrest (index + 1) middle]
      cases decodeItems allowUnknown rest path (index + 1) middle <;> rfl

/-- Decoding a node reads the values at its places in pre-order. -/
theorem map_snd_decodeNode (allowUnknown : Bool) (json : Json) (path : NodePath)
    (progress : Progress) :
    (decodeNode allowUnknown json path progress).map Prod.snd =
      (places json path).foldlM (readPlace allowUnknown) progress := by
  induction json using childItems_induction generalizing path progress with
  | step json ih =>
    have hitems := map_snd_decodeItems ih
    rw [places_eq, List.foldlM_cons]
    cases json with
    | obj fields =>
      rw [decodeNode, readPlace, readNode]
      cases decodeLabel allowUnknown fields progress with
      | error fault => rfl
      | ok label =>
        obtain ⟨node, middle⟩ := label
        -- What is left of the object is its field for children, and then their places.
        simp only [← hitems]
        trans (decodeBelow allowUnknown fields path middle).map Prod.snd
        · cases decodeBelow allowUnknown fields path middle <;> rfl
        · exact map_snd_decodeBelow fields path middle
    | _ => rfl

end Decoding

/-! ### Reading place after place -/

/-- The values before a place violate no check, after the nodes with the given numbers and those
that carry the numbers of the list. -/
def SoundUpTo (allowUnknown : Bool) (before ids : List Int) (sites : List (NodePath × Json))
    (place : Nat) : Prop :=
  ∀ earlier < place, ∀ site, sites[earlier]? = some site →
    Sound allowUnknown (before ++ ids.take earlier) site.2

section Reading

variable {allowUnknown : Bool} {before ids : List Int} {progress next : Progress}
  {site : NodePath × Json} {sites : List (NodePath × Json)} {e : DocumentError}

/-- Values are sound up to a place when the first is, and the others are after it. -/
theorem SoundUpTo.cons {id : Int} {place : Nat} (hsite : Sound allowUnknown before site.2)
    (h : SoundUpTo allowUnknown (before ++ [id]) ids sites place) :
    SoundUpTo allowUnknown before (id :: ids) (site :: sites) (place + 1) := by
  intro earlier hlt other hother
  cases earlier with
  | zero =>
    cases hother
    rwa [List.take_zero, List.append_nil]
  | succ earlier =>
    rw [append_take_succ]
    exact h earlier (Nat.lt_of_succ_lt_succ hlt) other hother

/-- Reading fails at a place exactly with the first check that its value violates. -/
theorem readPlace_eq_error_iff (hpool : progress.ids.Holds before) :
    readPlace allowUnknown progress site = .error e ↔
      e.path = some site.1 ∧ FirstViolated allowUnknown before NodeCheck.order site.2 e.fault := by
  rw [← readNode_eq_error_iff hpool, readPlace]
  cases readNode allowUnknown progress site.2 with
  | ok next => simp [Except.mapError]
  | error fault =>
    obtain ⟨found, path⟩ := e
    simp only [Except.mapError, Except.error.injEq, DocumentError.mk.injEq]
    rw [and_comm, eq_comm (a := some site.1)]

/-- A value that is read violates no check, and its number is in use from then on. -/
theorem holds_of_readPlace {id : Int} (hpool : progress.ids.Holds before)
    (hid : IdPool.IsCarried before (writtenId site.2) id)
    (h : readPlace allowUnknown progress site = .ok next) :
    Sound allowUnknown before site.2 ∧ next.ids.Holds (before ++ [id]) := by
  have hread : readNode allowUnknown progress site.2 = .ok next := by
    unfold readPlace at h
    cases hnode : readNode allowUnknown progress site.2 with
    | ok found =>
      rw [hnode] at h
      cases h
      rfl
    | error fault =>
      rw [hnode] at h
      cases h
  obtain ⟨other, hother, hnext⟩ := exists_isCarried_of_readNode hpool hread
  rw [hid.unique hother]
  exact ⟨(exists_readNode_iff hpool).mp ⟨next, hread⟩, hnext⟩

/-- Values that are all read violate no check. -/
theorem soundUpTo_of_foldlM (hpool : progress.ids.Holds before)
    (hids : Numbered before (sites.map fun site => writtenId site.2) ids)
    (h : sites.foldlM (readPlace allowUnknown) progress = .ok next) :
    SoundUpTo allowUnknown before ids sites sites.length := by
  induction sites generalizing before ids progress with
  | nil => exact fun earlier hlt => absurd hlt (Nat.not_lt_zero earlier)
  | cons site sites ih =>
    cases ids with
    | nil => cases hids.length_eq
    | cons id ids =>
      obtain ⟨hcarried, hids⟩ := numbered_cons_iff.mp hids
      rw [List.foldlM_cons, bind_eq_ok_iff] at h
      obtain ⟨middle, hsite, hrest⟩ := h
      obtain ⟨hsound, hmiddle⟩ := holds_of_readPlace hpool hcarried hsite
      exact .cons hsound (ih hmiddle hids hrest)

/-- Reading fails at the first place whose value violates a check, with the first check that it
violates, and without the places behind it. -/
theorem exists_of_foldlM_eq_error (hpool : progress.ids.Holds before)
    (hids : Numbered before (sites.map fun site => writtenId site.2) ids)
    (h : sites.foldlM (readPlace allowUnknown) progress = .error e) :
    ∃ place site, sites[place]? = some site ∧ e.path = some site.1 ∧
      FirstViolated allowUnknown (before ++ ids.take place) NodeCheck.order site.2 e.fault ∧
      SoundUpTo allowUnknown before ids sites place ∧
      (sites.take (place + 1)).foldlM (readPlace allowUnknown) progress = .error e := by
  induction sites generalizing before ids progress with
  | nil => cases h
  | cons site sites ih =>
    cases ids with
    | nil => cases hids.length_eq
    | cons id ids =>
      obtain ⟨hcarried, hids⟩ := numbered_cons_iff.mp hids
      rw [List.foldlM_cons, bind_eq_error_iff] at h
      -- Either the first value is at fault, or it is one of those before the value that is.
      rcases h with hsite | ⟨middle, hsite, hrest⟩
      · obtain ⟨hpath, hfirst⟩ := (readPlace_eq_error_iff hpool).mp hsite
        refine ⟨0, site, rfl, hpath, ?_, fun earlier hlt => absurd hlt (Nat.not_lt_zero earlier),
          ?_⟩
        · rwa [List.take_zero, List.append_nil]
        · rw [List.take_succ_cons, List.take_zero, List.foldlM_cons, hsite]
          rfl
      · obtain ⟨hsound, hmiddle⟩ := holds_of_readPlace hpool hcarried hsite
        obtain ⟨place, found, hfound, hpath, hfirst, hbefore, htake⟩ := ih hmiddle hids hrest
        refine ⟨place + 1, found, hfound, hpath, ?_, hbefore.cons hsound, ?_⟩
        · rwa [append_take_succ]
        · rw [List.take_succ_cons, List.foldlM_cons, hsite]
          exact htake

end Reading

/-! ### Refused documents -/

/-- A document with a name, a text and a root. -/
structure HasRoot (document root : Json) : Prop where
  fileName : ∃ name, document.field? "fileName" = some (.str name)
  text : ∃ text, document.field? "text" = some (.str text)
  root_eq : document.field? "root" = some root

/-- Two places are the same when their paths are, and their values look the same. -/
def SameSite (site other : NodePath × Json) : Prop :=
  site.1 = other.1 ∧ SameFace site.2 other.2

/-- An error blames the first place whose value violates a check. -/
structure Blames (allowUnknown : Bool) (root : Json) (ids : List Int) (place : Nat)
    (path : NodePath) (value : Json) (e : DocumentError) : Prop where
  site : (places root [])[place]? = some (path, value)
  path_eq : e.path = some path
  leads : ∀ other, Leads root path.display other ↔ other = value
  first : FirstViolated allowUnknown (ids.take place) NodeCheck.order value e.fault
  sound_before : ∀ earlier < place, ∀ site, (places root [])[earlier]? = some site →
    Sound allowUnknown (ids.take earlier) site.2
  unread_behind : ∀ other otherRoot, HasRoot other otherRoot →
    List.Forall₂ SameSite ((places root []).take (place + 1))
      ((places otherRoot []).take (place + 1)) →
    decode allowUnknown other = .error e

/-- A document with a root is refused where its root is, or else for the kind of its root. -/
theorem HasRoot.decode_eq_error_iff {allowUnknown : Bool} {document root : Json}
    {e : DocumentError} (h : HasRoot document root) :
    decode allowUnknown document = .error e ↔
      decodeNode allowUnknown root [] {} = .error e ∨
        ∃ tree next, decodeNode allowUnknown root [] {} = .ok (tree, next) ∧
          tree.label.kind ≠ .sourceFile ∧ e = ⟨.rootKind tree.label.kind, some []⟩ := by
  obtain ⟨⟨fileName, hfileName⟩, ⟨text, htext⟩, hroot⟩ := h
  cases document with
  | obj fields =>
    simp only [Json.field?] at hfileName htext hroot
    simp only [decode, hfileName, htext, hroot]
    cases decodeNode allowUnknown root [] {} with
    | error found => simp
    | ok decoded =>
      obtain ⟨tree, next⟩ := decoded
      by_cases hkind : tree.label.kind = .sourceFile
      · simp [hkind]
      · simp [hkind, @eq_comm _ e]
  | _ => cases hroot

/-- Reading does not tell places apart that are the same. -/
theorem foldlM_readPlace_congr {allowUnknown : Bool} {sites others : List (NodePath × Json)}
    {progress : Progress} (h : List.Forall₂ SameSite sites others) :
    sites.foldlM (readPlace allowUnknown) progress =
      others.foldlM (readPlace allowUnknown) progress := by
  induction h generalizing progress with
  | nil => rfl
  | @cons site other sites others hsite _ ih =>
    have hread : readPlace allowUnknown progress site = readPlace allowUnknown progress other := by
      rw [readPlace, readPlace, hsite.1, hsite.2.readNode_eq]
    rw [List.foldlM_cons, List.foldlM_cons, hread]
    congr 1
    funext next
    exact ih

/-- A document is refused as another one is when the two are the same up to a place where the
other fails. -/
theorem HasRoot.decode_eq_error_of_take {allowUnknown : Bool} {document root : Json} {place : Nat}
    {sites : List (NodePath × Json)} {e : DocumentError} (h : HasRoot document root)
    (hsites : List.Forall₂ SameSite sites ((places root []).take place))
    (herror : sites.foldlM (readPlace allowUnknown) {} = .error e) :
    decode allowUnknown document = .error e := by
  have hread : (places root []).foldlM (readPlace allowUnknown) {} = .error e := by
    rw [← List.take_append_drop place (places root []), List.foldlM_append,
      ← foldlM_readPlace_congr hsites, herror]
    rfl
  refine h.decode_eq_error_iff.mpr (.inl ?_)
  rw [← map_snd_decodeNode] at hread
  cases hnode : decodeNode allowUnknown root [] {} with
  | ok decoded =>
    rw [hnode] at hread
    cases hread
  | error found =>
    rw [hnode] at hread
    cases hread
    rfl

/-- A root that is not decoded is blamed on the first place whose value violates a check. -/
theorem exists_blames_of_decodeNode {allowUnknown : Bool} {root : Json} {ids : List Int}
    {e : DocumentError}
    (hids : Numbered [] ((places root []).map fun site => writtenId site.2) ids)
    (h : decodeNode allowUnknown root [] {} = .error e) :
    ∃ place path value, Blames allowUnknown root ids place path value e := by
  have hread := map_snd_decodeNode allowUnknown root [] {}
  rw [h] at hread
  obtain ⟨place, ⟨path, value⟩, hsite, hpath, hfirst, hbefore, htake⟩ :=
    exists_of_foldlM_eq_error IdPool.holds_nil hids hread.symm
  have hvalue : valueAt? root path = some value := by
    obtain ⟨rest, hrest, hvalue⟩ := mem_places_iff.mp (List.mem_of_getElem? hsite)
    rwa [hrest, List.nil_append]
  refine ⟨place, path, value, hsite, hpath, fun other => ?_, hfirst, hbefore,
    fun other otherRoot hother hsites => hother.decode_eq_error_of_take hsites htake⟩
  rw [leads_display_iff, hvalue, Option.some.injEq, eq_comm]

/-- A document with a name, a text and a root that is refused is refused for the first of its values
in pre-order that violates a check, if there is one. The path of the error leads to that value
alone, the error is that of the first check it violates, the values before it violate none, and the
error is the same for every document that looks the same up to that value. Otherwise the document is
refused for the kind of its root. In both cases the fault is told in the words for it. -/
theorem decode_refuses_first_violation (allowUnknown : Bool) (document root : Json)
    (hroot : HasRoot document root) (e : DocumentError)
    (h : decode allowUnknown document = .error e) :
    ∃ ids, Numbered [] ((places root []).map fun site => writtenId site.2) ids ∧
      ((∃ place site, (places root [])[place]? = some site ∧
          ¬ Sound allowUnknown (ids.take place) site.2) →
        ∃ place path value, Blames allowUnknown root ids place path value e) ∧
      ((∀ place site, (places root [])[place]? = some site →
          Sound allowUnknown (ids.take place) site.2) →
        ∃ fields, root = .obj fields ∧ kindIn fields ≠ .sourceFile ∧
          e.fault = .rootKind (kindIn fields) ∧ e.path.map NodePath.display = some "root") ∧
      FaultWords e.fault e.fault.message := by
  obtain ⟨ids, hids⟩ := exists_numbered [] ((places root []).map fun site => writtenId site.2)
  refine ⟨ids, hids, ?_⟩
  rcases hroot.decode_eq_error_iff.mp h with hnode | ⟨tree, next, htree, hkind, rfl⟩
  · obtain ⟨place, path, value, hblames⟩ := exists_blames_of_decodeNode hids hnode
    obtain ⟨_, check, _, _, hfault, _⟩ := hblames.first
    refine ⟨fun _ => ⟨place, path, value, hblames⟩, fun hsound => ?_, hfault.faultWords⟩
    have hviolated := exists_firstViolated_order_iff.mp ⟨e.fault, hblames.first⟩
    exact absurd (hsound place (path, value) hblames.site) hviolated
  · have hread := map_snd_decodeNode allowUnknown root [] {}
    rw [htree] at hread
    have hsound := soundUpTo_of_foldlM IdPool.holds_nil hids hread.symm
    refine ⟨fun hviolated => ?_, fun _ => ?_, .rootKind _⟩
    · obtain ⟨place, site, hsite, hviolated⟩ := hviolated
      exact absurd (hsound place (List.getElem?_eq_some_iff.mp hsite).1 site hsite) hviolated
    · obtain ⟨fields, rfl, hkeeps⟩ := (portrays_keeps htree).exists_root
      rw [hkeeps.kind] at hkind ⊢
      exact ⟨fields, rfl, hkind, rfl, rfl⟩

/-- A tree with several faults: a number that was given to the node above, with a wrong name, and a
value behind it that is no object. -/
def manyFaults : Json :=
  .obj [("kind", .str "SourceFile"), ("pos", .int 0), ("children", .arr [
    .obj [("kind", .str "Block"), ("pos", .int 1), ("children", .arr [
      .obj [("kind", .str "Identifier"), ("pos", .int 2), ("id", .int 1), ("name", .int 3)],
      .null])],
    .obj [("pos", .int 0)]])]

/-- The document of the tree with several faults. -/
def faultyDocument : Json :=
  .obj [("fileName", .str "a.ts"), ("text", .str ""), ("root", manyFaults)]

/-- The first fault is blamed on the number, and on the place where it is written. -/
theorem blames_manyFaults :
    HasRoot faultyDocument manyFaults ∧
      decode false faultyDocument = .error ⟨.duplicateId 1, some [0, 0]⟩ ∧
      ∃ ids place value,
        Blames false manyFaults ids place [0, 0] value ⟨.duplicateId 1, some [0, 0]⟩ := by
  have hroot : HasRoot faultyDocument manyFaults := ⟨⟨"a.ts", rfl⟩, ⟨"", rfl⟩, rfl⟩
  have hrefused : decode false faultyDocument = .error ⟨.duplicateId 1, some [0, 0]⟩ := rfl
  refine ⟨hroot, hrefused, ?_⟩
  obtain ⟨ids, _, hviolated, hsound, _⟩ :=
    decode_refuses_first_violation false faultyDocument manyFaults hroot _ hrefused
  by_cases h : ∃ place site, (places manyFaults [])[place]? = some site ∧
      ¬ Sound false (ids.take place) site.2
  · obtain ⟨place, path, value, hblames⟩ := hviolated h
    cases hblames.path_eq
    exact ⟨ids, place, value, hblames⟩
  · push Not at h
    obtain ⟨fields, _, _, hfault, _⟩ := hsound h
    cases hfault

end TreeLint.Document
