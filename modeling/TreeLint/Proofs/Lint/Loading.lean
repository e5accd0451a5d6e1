import TreeLint.Lint.Files
import TreeLint.Proofs.Json.LongNumber
import TreeLint.Proofs.Json.RoundTrip
import TreeLint.Proofs.Text.Utf8

/-!
# What becomes of the bytes of a tree file

The bytes of a file are decoded, read as JSON and taken as a tree, and each step has errors of its
own. An error of the format is one about JSON or about the tree. The other two are bytes that encode
no text, and a whole number with more digits than are taken; that number then stands in the file. A
file in which neither is met is a tree or has an error of the format. One that holds a written
document is such a file, and comes to what is decoded from the document.
-/

namespace TreeLint

namespace Text

variable {run text : List Char}

/-- No digits stand right before a line feed. -/
theorem eq_nil_of_prefix_lineFeed (hdigits : ∀ c ∈ run, isDigit c = true)
    (h : run <+: '\n' :: text) : run = [] := by
  rcases List.prefix_cons_iff.mp h with rfl | ⟨others, rfl, _⟩
  · rfl
  · cases hdigits '\n' List.mem_cons_self

/-- Digits at the front of a text with unified line ends stand at the front of the text. -/
theorem prefix_of_prefix_unifyNewlines (hdigits : ∀ c ∈ run, isDigit c = true)
    (h : run <+: unifyNewlines text) : run <+: text := by
  fun_induction unifyNewlines text generalizing run with
  | case1 => exact h
  | case2 rest =>
    rw [eq_nil_of_prefix_lineFeed hdigits h]
    exact List.nil_prefix
  | case3 rest =>
    rw [eq_nil_of_prefix_lineFeed hdigits h]
    exact List.nil_prefix
  | case4 c rest _ _ ih =>
    rcases List.prefix_cons_iff.mp h with rfl | ⟨others, rfl, hothers⟩
    · exact List.nil_prefix
    · refine List.cons_prefix_cons.mpr ⟨rfl, ih (fun d hd => ?_) hothers⟩
      exact hdigits d (List.mem_cons_of_mem c hd)

/-- Digits in a text with unified line ends stand in the text. -/
theorem infix_of_infix_unifyNewlines (hdigits : ∀ c ∈ run, isDigit c = true)
    (h : run <:+: unifyNewlines text) : run <:+: text := by
  fun_induction unifyNewlines text with
  | case1 => exact h
  | case2 rest ih =>
    rcases List.infix_cons_iff.mp h with hfront | hrest
    · rw [eq_nil_of_prefix_lineFeed hdigits hfront]
      exact List.nil_infix
    · exact (ih hrest).trans (List.infix_cons_iff.mpr (.inr (List.suffix_cons _ _).isInfix))
  | case3 rest _ ih =>
    rcases List.infix_cons_iff.mp h with hfront | hrest
    · rw [eq_nil_of_prefix_lineFeed hdigits hfront]
      exact List.nil_infix
    · exact List.infix_cons_iff.mpr (.inr (ih hrest))
  | case4 c rest hpair hreturn ih =>
    -- At the front the digits are copied one by one; behind it the rest of the text has them.
    rcases List.infix_cons_iff.mp h with hfront | hrest
    · rw [← unifyNewlines.eq_4 c rest hpair hreturn] at hfront
      exact (prefix_of_prefix_unifyNewlines hdigits hfront).isInfix
    · exact List.infix_cons_iff.mpr (.inr (ih hrest))

/-- Without carriage returns there are no line ends to unify. -/
theorem unifyNewlines_eq_self (h : '\r' ∉ text) : unifyNewlines text = text := by
  fun_induction unifyNewlines text with
  | case1 => rfl
  | case2 rest => exact absurd List.mem_cons_self h
  | case3 rest hpair => exact absurd List.mem_cons_self h
  | case4 c rest hpair hreturn ih => rw [ih (List.not_mem_of_not_mem_cons h)]

end Text

/-- Bytes that encode a text in which the reader meets no whole number with too many digits. -/
def Readable (bytes : List UInt8) : Prop :=
  ∃ text, bytes = Text.utf8 text ∧
    ∀ digits, Json.readDocument (Text.unifyNewlines text) ≠ .error (.longNumber digits)

/-- Many digits in a row in a text with unified line ends stand in the text. -/
theorem hasLongRun_of_unifyNewlines {digits : Nat} {text : List Char}
    (h : Json.HasLongRun digits (Text.unifyNewlines text)) : Json.HasLongRun digits text := by
  obtain ⟨run, hrun, hdigits, hlength⟩ := h
  exact ⟨run, Text.infix_of_infix_unifyNewlines hdigits hrun, hdigits, hlength⟩

/-- The text of a written document has no line ends to unify. -/
theorem Json.Plain.unifyNewlines_write {json : Json} (h : json.Plain) (layout : Json.Layout) :
    Text.unifyNewlines (json.write layout).toList = (json.write layout).toList := by
  refine Text.unifyNewlines_eq_self fun hreturn => ?_
  rcases h.uses_of_mem_write hreturn with hprintable | hfeed
  · exact absurd hprintable (by decide)
  · exact absurd hfeed.2 (by decide)

/-- A file that holds a written document is readable. -/
theorem readable_utf8_write {json : Json} (h : json.Plain) (layout : Json.Layout) :
    Readable (Text.utf8 (json.write layout).toList) := by
  refine ⟨_, rfl, fun digits hlong => ?_⟩
  have hread := h.readDocument_writeAt layout (nofun : Json.Gap [])
  rw [h.unifyNewlines_write, Json.write, String.toList_ofList] at hlong
  rw [List.append_nil, hlong] at hread
  cases hread

/-- An error of the format: what is in a file is not JSON, or not a tree. -/
def LoadError.IsFormat : LoadError → Prop
  | .json _ _ | .document _ => True
  | .file _ | .encoding _ | .longNumber _ => False

namespace FileSystem

variable {files : FileSystem} {path : Path} {bytes : List UInt8} {text : List Char}

/-- A file that cannot be read is not loaded. -/
theorem loadTree_of_readBytes {e : FileError} (h : files.readBytes path = .error e)
    (allowUnknown : Bool) : files.loadTree allowUnknown path = .error (.file e) := by
  rw [loadTree, h]
  rfl

/-- The bytes of a file that do not encode a text cannot be loaded. -/
theorem loadTree_of_not_utf8 (hfile : files.follow path = .ok (.file bytes))
    (h : ∀ text, bytes ≠ Text.utf8 text) (allowUnknown : Bool) :
    ∃ e, files.loadTree allowUnknown path = .error (.encoding e) := by
  cases hdecode : Text.decodeFile bytes with
  | error e =>
    refine ⟨e, ?_⟩
    simp [loadTree, readBytes, hfile, hdecode, Except.mapError, bind, Except.bind]
  | ok s =>
    obtain ⟨text, htext, _⟩ := Text.decodeFile_eq_ok_iff.mp hdecode
    exact absurd htext (h text)

/-- A file that encodes a text is loaded from what the reader makes of the text. -/
theorem loadTree_utf8 (hfile : files.follow path = .ok (.file (Text.utf8 text)))
    (allowUnknown : Bool) :
    files.loadTree allowUnknown path = (do
      let json ← (Json.read (String.ofList (Text.unifyNewlines text))).mapError (.ofRead path)
      (Document.decode allowUnknown json).mapError .document) := by
  have hbytes : files.readBytes path = .ok (Text.utf8 text) := by rw [readBytes, hfile]
  have hdecode := Text.decodeFile_eq_ok_iff.mpr ⟨text, rfl, rfl⟩
  rw [loadTree, hbytes]
  change (Text.decodeFile (Text.utf8 text)).mapError LoadError.encoding >>= _ = _
  rw [hdecode]
  rfl

/-- A file that holds a written document comes to what is decoded from the document. -/
theorem loadTree_utf8_write {json : Json} (h : json.Plain) {layout : Json.Layout}
    (hfile : files.follow path = .ok (.file (Text.utf8 (json.write layout).toList)))
    (allowUnknown : Bool) :
    files.loadTree allowUnknown path = (Document.decode allowUnknown json).mapError .document := by
  rw [loadTree_utf8 hfile, h.unifyNewlines_write, String.ofList_toList, h.read_write]
  rfl

/-- A whole number with too many digits keeps a file from being loaded. -/
theorem loadTree_of_longNumber (hfile : files.follow path = .ok (.file (Text.utf8 text)))
    {digits : Nat}
    (h : Json.readDocument (Text.unifyNewlines text) = .error (.longNumber digits))
    (allowUnknown : Bool) :
    files.loadTree allowUnknown path = .error (.longNumber digits) := by
  rw [loadTree_utf8 hfile, Json.read, String.toList_ofList, h]
  rfl

/-- A readable file holds a tree or has an error of the format. -/
theorem loadTree_of_readable (hfile : files.follow path = .ok (.file bytes)) (h : Readable bytes)
    (allowUnknown : Bool) :
    (∃ tree, files.loadTree allowUnknown path = .ok tree) ∨
      ∃ e, files.loadTree allowUnknown path = .error e ∧ e.IsFormat := by
  obtain ⟨text, rfl, hlong⟩ := h
  rw [loadTree_utf8 hfile, Json.read, String.toList_ofList]
  cases hread : Json.readDocument (Text.unifyNewlines text) with
  | error refusal =>
    cases refusal with
    | fault what unread => exact .inr ⟨_, rfl, trivial⟩
    | longNumber digits => exact absurd hread (hlong digits)
  | ok json =>
    cases hdecode : Document.decode allowUnknown json with
    | error e =>
      refine .inr ⟨.document e, ?_, trivial⟩
      simp [Except.mapError, bind, Except.bind, hdecode]
    | ok tree =>
      refine .inl ⟨tree, ?_⟩
      simp [Except.mapError, bind, Except.bind, hdecode]

/-- A file that is not readable encodes no text, or there are too many digits in a row in it; the
error says which. -/
theorem loadTree_of_not_readable (hfile : files.follow path = .ok (.file bytes))
    (h : ¬ Readable bytes) (allowUnknown : Bool) :
    ((∀ text, bytes ≠ Text.utf8 text) ∧
      ∃ e, files.loadTree allowUnknown path = .error (.encoding e)) ∨
    ∃ text digits, bytes = Text.utf8 text ∧ Json.HasLongRun digits text ∧
      files.loadTree allowUnknown path = .error (.longNumber digits) := by
  by_cases hutf8 : ∀ text, bytes ≠ Text.utf8 text
  · exact .inl ⟨hutf8, loadTree_of_not_utf8 hfile hutf8 allowUnknown⟩
  · push Not at hutf8
    obtain ⟨text, rfl⟩ := hutf8
    obtain ⟨digits, hlong⟩ : ∃ digits,
        Json.readDocument (Text.unifyNewlines text) = .error (.longNumber digits) := by
      by_contra hnone
      exact h ⟨text, rfl, fun digits hlong => hnone ⟨digits, hlong⟩⟩
    exact .inr ⟨text, digits, rfl, hasLongRun_of_unifyNewlines
      (Json.hasLongRun_of_readDocument hlong), loadTree_of_longNumber hfile hlong allowUnknown⟩

/-- A file holds a tree or has an error of the format exactly if it is readable. -/
theorem loads_or_format_error_iff (hfile : files.follow path = .ok (.file bytes))
    (allowUnknown : Bool) :
    ((∃ tree, files.loadTree allowUnknown path = .ok tree) ∨
      ∃ e, files.loadTree allowUnknown path = .error e ∧ e.IsFormat) ↔ Readable bytes := by
  refine ⟨fun h => ?_, fun h => loadTree_of_readable hfile h allowUnknown⟩
  by_contra hunreadable
  rcases loadTree_of_not_readable hfile hunreadable allowUnknown with
    ⟨_, fault, hload⟩ | ⟨_, digits, _, _, hload⟩ <;>
  · rw [hload] at h
    rcases h with ⟨_, h⟩ | ⟨_, h, hformat⟩
    · cases h
    · cases h
      exact hformat

end FileSystem

end TreeLint
