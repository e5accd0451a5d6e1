import Mathlib.Data.List.Basic
import TreeLint.Proofs.Text.Blank

/-!
# Words of a text

The words of a text are the longest runs of characters that are not white space, from left to right.
A text has exactly one list of words. Squeezing keeps the words and leaves one space for each run of
white space, trimming takes away what is left at the ends, so that the normal form of a text is its
words with single spaces between them. It has the same words again.
-/

namespace TreeLint.Text

/-- A word has characters, and none of them is white space. -/
structure IsWord (word : List Char) : Prop where
  ne_nil : word ≠ []
  solid : ∀ c ∈ word, isBlank c = false

/-- A text has words, one after the other: each stands behind the white space up to it, if there is
any, and goes on until the next white space or the end of the text. -/
inductive HasWords : List Char → List (List Char) → Prop where
  | blanks {text : List Char} (hblanks : Blanks text) : HasWords text []
  | word {gap word rest : List Char} {words : List (List Char)} (hgap : Blanks gap)
      (hword : IsWord word) (hend : ∀ c ∈ rest.head?, isBlank c = true)
      (hrest : HasWords rest words) : HasWords (gap ++ (word ++ rest)) (word :: words)

/-- The words of a text: what is left of it by cutting at all white space. -/
def words (text : List Char) : List (List Char) :=
  (text.splitOnP isBlank).filter fun piece => !piece.isEmpty

/-- Words with one space between each and the next. -/
def unwords (words : List (List Char)) : List Char :=
  [' '].intercalate words

/-! ### One list of words -/

/-- A run of white space may be empty. -/
theorem blanks_nil : Blanks [] :=
  List.forall_mem_nil _

/-- White space parts the words in front of it from those behind. -/
theorem words_append_cons {c : Char} (hc : isBlank c = true) (front rest : List Char) :
    words (front ++ c :: rest) = words front ++ words rest := by
  rw [words, List.splitOnP_append_cons front rest hc, List.filter_append]
  rfl

/-- White space in front of a text adds no word. -/
theorem words_append_of_blanks {gap : List Char} (hgap : Blanks gap) (rest : List Char) :
    words (gap ++ rest) = words rest := by
  induction gap with
  | nil => rfl
  | cons c gap ih =>
    obtain ⟨hc, hgap⟩ := List.forall_mem_cons.mp hgap
    rw [← ih hgap]
    exact words_append_cons hc [] (gap ++ rest)

/-- A word is its only word. -/
theorem IsWord.words_eq {word : List Char} (h : IsWord word) : words word = [word] := by
  rw [words, List.splitOnP_eq_singleton h.solid]
  simp [h.ne_nil]

/-- The words of a text are what is left by cutting it. -/
theorem HasWords.words_eq {text : List Char} {found : List (List Char)} (h : HasWords text found) :
    words text = found := by
  induction h with
  | @blanks text hblanks =>
    rw [← List.append_nil text, words_append_of_blanks hblanks]
    rfl
  | @word gap word rest found hgap hword hend _ ih =>
    rw [words_append_of_blanks hgap, ← ih]
    cases rest with
    | nil =>
      rw [List.append_nil, hword.words_eq]
      rfl
    | cons c rest =>
      have hc : isBlank c = true := hend c rfl
      have hrest : words (c :: rest) = words rest := words_append_cons hc [] rest
      rw [words_append_cons hc, hword.words_eq, hrest]
      rfl

/-- A text may begin with a word. -/
theorem HasWords.first {word rest : List Char} {words : List (List Char)} (hword : IsWord word)
    (hend : ∀ c ∈ rest.head?, isBlank c = true) (hrest : HasWords rest words) :
    HasWords (word ++ rest) (word :: words) := by
  have hfirst : HasWords ([] ++ (word ++ rest)) (word :: words) :=
    .word blanks_nil hword hend hrest
  exact hfirst

/-- White space in front of a text belongs to none of its words. -/
theorem HasWords.cons_blank {c : Char} (hc : isBlank c = true) {text : List Char}
    {words : List (List Char)} (h : HasWords text words) : HasWords (c :: text) words := by
  cases h with
  | blanks hblanks => exact .blanks (List.forall_mem_cons.mpr ⟨hc, hblanks⟩)
  | word hgap hword hend hrest =>
    exact .word (List.forall_mem_cons.mpr ⟨hc, hgap⟩) hword hend hrest

/-- Another character in front of a text makes its first word longer, or is a word of its own. -/
theorem HasWords.exists_cons {c : Char} (hc : isBlank c = false) {text : List Char}
    {words : List (List Char)} (h : HasWords text words) :
    ∃ more, HasWords (c :: text) more := by
  have hsingle : IsWord [c] := ⟨List.cons_ne_nil c [], List.forall_mem_singleton.mpr hc⟩
  cases h with
  | blanks hblanks =>
    have hend : ∀ d ∈ text.head?, isBlank d = true := fun d hd =>
      hblanks d (List.mem_of_mem_head? hd)
    exact ⟨_, .first hsingle hend (.blanks hblanks)⟩
  | @word gap word rest words hgap hword hend hrest =>
    cases gap with
    | nil =>
      have hlonger : IsWord (c :: word) :=
        ⟨List.cons_ne_nil c word, List.forall_mem_cons.mpr ⟨hc, hword.solid⟩⟩
      exact ⟨_, .first hlonger hend hrest⟩
    | cons b gap =>
      have hgapHead : ∀ d ∈ (b :: gap ++ (word ++ rest)).head?, isBlank d = true := by
        rintro d ⟨⟩
        exact hgap b List.mem_cons_self
      exact ⟨_, .first hsingle hgapHead (.word hgap hword hend hrest)⟩

/-- Every text has words, perhaps none. -/
theorem exists_hasWords (text : List Char) : ∃ words, HasWords text words := by
  induction text with
  | nil => exact ⟨[], .blanks blanks_nil⟩
  | cons c rest ih =>
    obtain ⟨words, hwords⟩ := ih
    by_cases hc : isBlank c = true
    · exact ⟨words, hwords.cons_blank hc⟩
    · exact hwords.exists_cons (Bool.eq_false_iff.mpr hc)

/-- A text has exactly one list of words, which is found by cutting it. -/
theorem hasWords_iff {text : List Char} {found : List (List Char)} :
    HasWords text found ↔ words text = found := by
  refine ⟨HasWords.words_eq, ?_⟩
  rintro rfl
  obtain ⟨found, hfound⟩ := exists_hasWords text
  rwa [hfound.words_eq]

/-- The words of a text are words. -/
theorem HasWords.isWord {text : List Char} {words : List (List Char)} (h : HasWords text words) :
    ∀ word ∈ words, IsWord word := by
  induction h with
  | blanks _ => exact List.forall_mem_nil _
  | word _ hword _ _ ih => exact List.forall_mem_cons.mpr ⟨hword, ih⟩

/-! ### Words with single spaces between them -/

/-- No words are joined to nothing. -/
@[simp] theorem unwords_nil : unwords [] = [] :=
  rfl

/-- A word on its own is left as it is. -/
@[simp] theorem unwords_singleton (word : List Char) : unwords [word] = word := by
  simp [unwords]

/-- A word is joined to the next by a space. -/
theorem unwords_cons_cons (word next : List Char) (rest : List (List Char)) :
    unwords (word :: next :: rest) = word ++ ' ' :: unwords (next :: rest) := by
  rw [unwords, List.intercalate_cons_cons, List.append_assoc]
  rfl

/-- Joined words have these words again. -/
theorem hasWords_unwords {words : List (List Char)} (h : ∀ word ∈ words, IsWord word) :
    HasWords (unwords words) words := by
  induction words with
  | nil => exact .blanks blanks_nil
  | cons word rest ih =>
    obtain ⟨hword, hrest⟩ := List.forall_mem_cons.mp h
    cases rest with
    | nil =>
      have hone : HasWords (word ++ []) [word] := .first hword (by simp) (.blanks blanks_nil)
      rw [List.append_nil] at hone
      rwa [unwords_singleton]
    | cons next rest =>
      rw [unwords_cons_cons]
      refine .first hword ?_ ((ih hrest).cons_blank (by decide))
      rintro c ⟨⟩
      decide

/-- Joined words begin with the first of them. -/
theorem exists_unwords_eq_append (word : List Char) (rest : List (List Char)) :
    ∃ after, unwords (word :: rest) = word ++ after := by
  cases rest with
  | nil => exact ⟨[], by rw [unwords_singleton, List.append_nil]⟩
  | cons next rest => exact ⟨_, unwords_cons_cons word next rest⟩

/-- Joined words end with the last of them. -/
theorem exists_append_eq_unwords (front : List (List Char)) (word : List Char) :
    ∃ before, unwords (front ++ [word]) = before ++ word := by
  induction front with
  | nil => exact ⟨[], unwords_singleton word⟩
  | cons first front ih =>
    obtain ⟨before, hbefore⟩ := ih
    refine ⟨first ++ ' ' :: before, ?_⟩
    rw [List.append_assoc, List.cons_append, List.cons_append, ← hbefore]
    cases front with
    | nil => exact unwords_cons_cons first word []
    | cons next front => exact unwords_cons_cons first next (front ++ [word])

section Ends

variable {words : List (List Char)} {c : Char}

/-- Joined words do not begin with white space. -/
theorem isBlank_of_mem_head?_unwords (h : ∀ word ∈ words, IsWord word)
    (hc : c ∈ (unwords words).head?) : isBlank c = false := by
  cases words with
  | nil => cases hc
  | cons word rest =>
    have hword := h word List.mem_cons_self
    obtain ⟨after, hafter⟩ := exists_unwords_eq_append word rest
    obtain ⟨first, letters, rfl⟩ := List.exists_cons_of_ne_nil hword.ne_nil
    rw [hafter] at hc
    obtain rfl : first = c := Option.some.inj hc
    exact hword.solid first List.mem_cons_self

/-- Joined words do not end with white space. -/
theorem isBlank_of_mem_getLast?_unwords (h : ∀ word ∈ words, IsWord word)
    (hc : c ∈ (unwords words).getLast?) : isBlank c = false := by
  rcases List.eq_nil_or_concat' words with rfl | ⟨front, word, rfl⟩
  · cases hc
  · have hword := h word (List.mem_append_right front List.mem_cons_self)
    obtain ⟨before, hbefore⟩ := exists_append_eq_unwords front word
    rw [hbefore, List.getLast?_append_of_ne_nil before hword.ne_nil] at hc
    exact hword.solid c (List.mem_of_mem_getLast? hc)

end Ends

/-! ### The normal form -/

/-- In an open run more white space adds nothing. -/
theorem squeezeFrom_true_append {gap : List Char} (hgap : Blanks gap) (rest : List Char) :
    squeezeFrom true (gap ++ rest) = squeezeFrom true rest := by
  induction gap with
  | nil => rfl
  | cons c gap ih =>
    obtain ⟨hc, hgap⟩ := List.forall_mem_cons.mp hgap
    rw [List.cons_append, squeezeFrom, if_pos hc, if_pos rfl, ih hgap]

/-- A word is left as it is and closes a run. -/
theorem squeezeFrom_append {word : List Char} (hword : IsWord word) (inRun : Bool)
    (rest : List Char) : squeezeFrom inRun (word ++ rest) = word ++ squeezeFrom false rest := by
  obtain ⟨hne, hsolid⟩ := hword
  induction word generalizing inRun with
  | nil => exact absurd rfl hne
  | cons c word ih =>
    obtain ⟨hc, hword⟩ := List.forall_mem_cons.mp hsolid
    rw [List.cons_append, squeezeFrom, hc, if_neg Bool.false_ne_true]
    cases word with
    | nil => rfl
    | cons d word =>
      rw [ih false (List.cons_ne_nil d word) hword]
      rfl

/-- In an open run squeezing leaves the words with single spaces between them, and perhaps a space
at the end. -/
theorem HasWords.squeezeFrom_true {text : List Char} {words : List (List Char)}
    (h : HasWords text words) :
    ∃ after, Blanks after ∧ squeezeFrom true text = unwords words ++ after := by
  induction h with
  | @blanks text hblanks =>
    refine ⟨[], blanks_nil, ?_⟩
    rw [← List.append_nil text, squeezeFrom_true_append hblanks]
    rfl
  | @word gap word rest words hgap hword hend hrest ih =>
    rw [squeezeFrom_true_append hgap, squeezeFrom_append hword]
    obtain ⟨after, hafter, hsqueeze⟩ := ih
    cases rest with
    | nil =>
      obtain rfl : [] = words := hrest.words_eq
      exact ⟨[], blanks_nil, by simp [squeezeFrom]⟩
    | cons c rest =>
      -- One space is left of the white space behind the word, whatever comes then.
      have hc : isBlank c = true := hend c rfl
      have hspace : squeezeFrom false (c :: rest) = ' ' :: squeezeFrom true (c :: rest) := by
        simp [squeezeFrom, hc]
      rw [hspace, hsqueeze]
      cases words with
      | nil => exact ⟨' ' :: after, List.forall_mem_cons.mpr ⟨by decide, hafter⟩, by simp⟩
      | cons next words => exact ⟨after, hafter, by simp [unwords_cons_cons]⟩

/-- Squeezing leaves at most one space in front of what it leaves in an open run. -/
theorem exists_squeeze_eq (text : List Char) :
    ∃ before, Blanks before ∧ squeeze text = before ++ squeezeFrom true text := by
  cases text with
  | nil => exact ⟨[], blanks_nil, rfl⟩
  | cons c rest =>
    by_cases hc : isBlank c = true
    · exact ⟨[' '], List.all_eq_true.mp (by decide), by simp [squeeze, squeezeFrom, hc]⟩
    · exact ⟨[], blanks_nil, by simp [squeeze, squeezeFrom, hc]⟩

/-- The normal form of a text is its words with single spaces between them. -/
theorem HasWords.normalize_eq {text : List Char} {words : List (List Char)}
    (h : HasWords text words) : normalize text = unwords words := by
  obtain ⟨before, hbefore, hsqueeze⟩ := exists_squeeze_eq text
  obtain ⟨after, hafter, hwords⟩ := h.squeezeFrom_true
  rw [normalize, hsqueeze, hwords, ← List.append_assoc]
  exact trim_append_append hbefore hafter (fun _ => isBlank_of_mem_head?_unwords h.isWord)
    fun _ => isBlank_of_mem_getLast?_unwords h.isWord

/-- The normal form of a text has the words of the text. -/
theorem words_normalize (text : List Char) : words (normalize text) = words text := by
  obtain ⟨found, hfound⟩ := exists_hasWords text
  rw [hfound.normalize_eq, hfound.words_eq]
  exact (hasWords_unwords hfound.isWord).words_eq

/-- Two texts have the same normal form exactly if they have the same words. -/
theorem normalize_eq_normalize_iff {text other : List Char} :
    normalize text = normalize other ↔ words text = words other := by
  constructor
  · intro h
    rw [← words_normalize text, h, words_normalize]
  · intro h
    rw [(hasWords_iff.mpr rfl).normalize_eq, h, (hasWords_iff.mpr rfl).normalize_eq]

end TreeLint.Text
