import Mathlib.Data.List.TakeWhile
import TreeLint.Types.Descriptor

/-!
# Blank texts

Squeezing keeps whether a text is all white space, and trimming leaves nothing exactly of such a
text. Normalising therefore leaves nothing exactly of texts that are all white space, and so does
normalising the descriptor of a type. What trimming drops is the white space around a text, and
nothing of a text that neither begins nor ends with some.
-/

namespace TreeLint

namespace Text

/-- Squeezing keeps whether all characters are white space. -/
theorem all_isBlank_squeezeFrom (inRun : Bool) (text : List Char) :
    (squeezeFrom inRun text).all isBlank = text.all isBlank := by
  induction text generalizing inRun with
  | nil => rfl
  | cons c rest ih =>
    have hspace : isBlank ' ' = true := by decide
    by_cases hc : isBlank c
    · cases inRun <;> simp [squeezeFrom, hc, ih, hspace]
    · simp [squeezeFrom, hc]

/-- Trimming leaves nothing exactly of white space. -/
theorem trim_eq_nil_iff {text : List Char} : trim text = [] ↔ text.all isBlank = true := by
  have hdropped : (text.dropWhile isBlank).all isBlank = text.all isBlank := calc
    (text.dropWhile isBlank).all isBlank =
        (text.takeWhile isBlank ++ text.dropWhile isBlank).all isBlank := by
      rw [List.all_append, List.all_takeWhile, Bool.true_and]
    _ = text.all isBlank := by rw [List.takeWhile_append_dropWhile]
  rw [← hdropped, trim, List.reverse_eq_nil_iff, List.dropWhile_eq_nil_iff, List.all_eq_true]
  simp only [List.mem_reverse]

/-- Normalising leaves nothing exactly of white space. -/
theorem normalize_eq_nil_iff {text : List Char} :
    normalize text = [] ↔ text.all isBlank = true := by
  rw [normalize, trim_eq_nil_iff, squeeze, all_isBlank_squeezeFrom]

/-- A run of white space, perhaps empty. -/
def Blanks (text : List Char) : Prop :=
  ∀ c ∈ text, isBlank c = true

/-- A text is cut before a character outside of a class exactly if a run inside of the class stands
before that character. -/
theorem takeWhile_dropWhile_eq_iff {p : Char → Bool} {text run rest : List Char} {c : Char}
    (hc : p c = false) :
    text.takeWhile p = run ∧ text.dropWhile p = c :: rest ↔
      (∀ d ∈ run, p d = true) ∧ text = run ++ c :: rest := by
  constructor
  · intro h
    obtain ⟨rfl, hrest⟩ := h
    refine ⟨fun d hd => List.mem_takeWhile_imp hd, ?_⟩
    rw [← hrest, List.takeWhile_append_dropWhile]
  · intro h
    obtain ⟨hrun, rfl⟩ := h
    rw [List.takeWhile_append_of_pos hrun, List.dropWhile_append_of_pos hrun]
    simp [hc]

/-- Dropping white space leaves a text that begins with another character exactly if white space
stands before it. -/
theorem dropWhile_isBlank_eq_cons_iff {text rest : List Char} {c : Char} (hc : isBlank c = false) :
    text.dropWhile isBlank = c :: rest ↔ ∃ blanks, Blanks blanks ∧ text = blanks ++ c :: rest := by
  constructor
  · intro h
    exact ⟨_, (takeWhile_dropWhile_eq_iff hc).mp ⟨rfl, h⟩⟩
  · intro h
    obtain ⟨blanks, hblanks⟩ := h
    exact ((takeWhile_dropWhile_eq_iff hc).mpr hblanks).2

/-- A text is its trimmed form between white space. -/
theorem exists_blanks_trim (text : List Char) :
    ∃ before after, Blanks before ∧ Blanks after ∧ text = before ++ trim text ++ after := by
  refine ⟨text.takeWhile isBlank, ((text.dropWhile isBlank).reverse.takeWhile isBlank).reverse,
    fun c hc => List.mem_takeWhile_imp hc,
    fun c hc => List.mem_takeWhile_imp (List.mem_reverse.mp hc), ?_⟩
  rw [trim, List.append_assoc, ← List.reverse_append, List.takeWhile_append_dropWhile,
    List.reverse_reverse, List.takeWhile_append_dropWhile]

/-- Nothing is dropped in front of a text that does not begin with white space. -/
theorem dropWhile_isBlank_eq_self {text : List Char} (h : ∀ c ∈ text.head?, isBlank c = false) :
    text.dropWhile isBlank = text := by
  cases text with
  | nil => rfl
  | cons c rest => exact List.dropWhile_cons_of_neg (by simp [h c rfl])

/-- Trimming drops the white space around a text that neither begins nor ends with some. -/
theorem trim_append_append {before middle after : List Char} (hbefore : Blanks before)
    (hafter : Blanks after) (hfirst : ∀ c ∈ middle.head?, isBlank c = false)
    (hlast : ∀ c ∈ middle.getLast?, isBlank c = false) :
    trim (before ++ middle ++ after) = middle := by
  cases middle with
  | nil =>
    rw [trim_eq_nil_iff, List.append_nil, List.all_append, List.all_eq_true.mpr hbefore,
      List.all_eq_true.mpr hafter, Bool.and_self]
  | cons first rest =>
    have hleft : (before ++ first :: rest ++ after).dropWhile isBlank = first :: rest ++ after := by
      rw [List.append_assoc, List.dropWhile_append_of_pos hbefore]
      exact dropWhile_isBlank_eq_self hfirst
    have hright : (first :: rest ++ after).reverse.dropWhile isBlank = (first :: rest).reverse := by
      rw [List.reverse_append, List.dropWhile_append_of_pos fun c hc =>
        hafter c (List.mem_reverse.mp hc)]
      refine dropWhile_isBlank_eq_self fun c hc => hlast c ?_
      rwa [List.head?_reverse] at hc
    rw [trim, hleft, hright, List.reverse_reverse]

end Text

/-- Normalising leaves nothing exactly of a descriptor that is all white space. -/
theorem Types.isEmpty_normalize (descriptor : String) :
    (normalize descriptor).isEmpty = descriptor.toList.all Text.isBlank := by
  rw [Bool.eq_iff_iff, ← Text.normalize_eq_nil_iff, String.isEmpty_iff, normalize,
    String.ofList_eq_empty_iff]

end TreeLint
