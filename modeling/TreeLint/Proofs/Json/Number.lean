import Mathlib.Data.List.Basic
import Mathlib.Data.List.TakeWhile
import TreeLint.Json.Reader
import TreeLint.Json.Writer

/-!
# Written whole numbers are read back

Blanks may stand between the parts of a document, and what may follow a value is a blank, a comma or
a closing bracket. None of these continues a number, so that the digits written for a whole number
are read as that number and the rest of the document is left as it was. The digits have no zero in
front, and there are not too many of them if the number is below the bound.
-/

namespace TreeLint.Json

/-! ### Blanks -/

/-- A run of blanks, perhaps empty. -/
def Gap (text : List Char) : Prop :=
  ∀ c ∈ text, isGap c = true

/-- Blanks are skipped in front of any text. -/
theorem skipGap_append {gap : List Char} (h : Gap gap) (text : List Char) :
    skipGap (gap ++ text) = skipGap text :=
  List.dropWhile_append_of_pos h

/-- Nothing is skipped in front of a character that is no blank. -/
theorem skipGap_cons {c : Char} (h : isGap c = false) (text : List Char) :
    skipGap (c :: text) = c :: text :=
  List.dropWhile_cons_of_neg (by simp [h])

/-- A line break of a layout is made of blanks. -/
theorem gap_lineBreak (layout : Layout) (depth : Nat) : Gap (layout.lineBreak depth) := by
  intro c hc
  cases layout with
  | oneLine => cases hc
  | indented width =>
    rcases List.mem_cons.mp hc with rfl | hc
    · rfl
    · rw [List.eq_of_mem_replicate hc]
      rfl

/-- What divides two items is a comma with blanks after it. -/
theorem separator_eq (layout : Layout) (depth : Nat) :
    ∃ gap, Gap gap ∧ layout.separator depth = ',' :: gap := by
  cases layout with
  | oneLine => exact ⟨[' '], by simp [Gap, isGap], rfl⟩
  | indented width => exact ⟨_, gap_lineBreak (.indented width) depth, rfl⟩

/-- What may follow a value inside of a document: nothing, a blank, a comma or a closing bracket. -/
def Ends (rest : List Char) : Prop :=
  ∀ c ∈ rest.head?, (isGap c || c == ',' || c == ']' || c == '}') = true

/-- A closing bracket behind blanks ends a value. -/
theorem ends_closing {gap : List Char} (h : Gap gap) {c : Char} (hc : c = ']' ∨ c = '}')
    (rest : List Char) : Ends (gap ++ c :: rest) := by
  intro first hfirst
  cases gap with
  | nil =>
    obtain rfl : c = first := Option.some.inj hfirst
    rcases hc with rfl | rfl <;> rfl
  | cons blank gap =>
    obtain rfl : blank = first := Option.some.inj hfirst
    rw [h blank List.mem_cons_self]
    rfl

/-- Blanks alone end a value. -/
theorem ends_gap {gap : List Char} (h : Gap gap) : Ends gap := by
  intro c hc
  rw [h c (List.mem_of_mem_head? hc)]
  rfl

/-! ### Whole numbers -/

/-- What ends a value is neither a digit, nor a point, nor the mark of an exponent. -/
theorem Ends.head {c : Char} {rest : List Char} (h : Ends (c :: rest)) :
    Text.isDigit c = false ∧ c ≠ '.' ∧ c ≠ 'e' ∧ c ≠ 'E' := by
  have hc := h c rfl
  simp only [isGap, Bool.or_eq_true, beq_iff_eq] at hc
  rcases hc with (((((rfl | rfl) | rfl) | rfl) | rfl) | rfl) | rfl <;> decide

/-- No fraction stands where a value ends. -/
theorem Ends.readFraction_eq {rest : List Char} (h : Ends rest) :
    readFraction rest = ([], rest) := by
  cases rest with
  | nil => rfl
  | cons c rest => simp [readFraction, h.head]

/-- No exponent stands where a value ends. -/
theorem Ends.readExponent_eq {rest : List Char} (h : Ends rest) :
    readExponent rest = ([], rest) := by
  cases rest with
  | nil => rfl
  | cons c rest => simp [readExponent, h.head]

/-- Written digits are ASCII digits. -/
theorem isDigit_of_mem_toDigits {n : Nat} {c : Char} (h : c ∈ Nat.toDigits 10 n) :
    Text.isDigit c = true := by
  have hdigit := Nat.isDigit_of_mem_toDigits (by decide) (by decide) h
  simpa [Char.isDigit, Text.isDigit, Char.le_def] using hdigit

/-- A run of digits ends where a value ends. -/
theorem Ends.takeWhile_isDigit {digits rest : List Char} (hrest : Ends rest)
    (h : ∀ c ∈ digits, Text.isDigit c = true) :
    (digits ++ rest).takeWhile Text.isDigit = digits ∧
      (digits ++ rest).dropWhile Text.isDigit = rest := by
  rw [List.takeWhile_append_of_pos h, List.dropWhile_append_of_pos h]
  cases rest with
  | nil => simp
  | cons c rest => simp [hrest.head]

/-- A positive number is not written with a zero in front. -/
theorem head?_toDigits_ne_zero {n : Nat} (h : 0 < n) : (Nat.toDigits 10 n).head? ≠ some '0' := by
  induction n using Nat.strongRecOn with
  | ind n ih =>
    rw [Nat.toDigits_eq_if (by decide)]
    split
    · intro hzero
      have hdigit : n.digitChar = '0' := Option.some.inj hzero
      rw [Nat.digitChar_eq_zero] at hdigit
      omega
    · rw [List.head?_append_of_ne_nil _ Nat.toDigits_ne_nil]
      exact ih (n / 10) (by omega) (by omega)

/-- The written digits of a number are read as its digits. -/
theorem readWhole?_toDigits (n : Nat) {rest : List Char} (hrest : Ends rest) :
    readWhole? (Nat.toDigits 10 n ++ rest) = some (Nat.toDigits 10 n, rest) := by
  rcases Nat.eq_zero_or_pos n with rfl | hn
  · simp [readWhole?]
  · have hhead := head?_toDigits_ne_zero hn
    obtain ⟨c, digits, hdigits⟩ :=
      List.exists_cons_of_ne_nil (Nat.toDigits_ne_nil (n := n) (b := 10))
    have hall : ∀ d ∈ c :: digits, Text.isDigit d = true := by
      intro d hd
      rw [← hdigits] at hd
      exact isDigit_of_mem_toDigits hd
    obtain ⟨htake, hdrop⟩ := hrest.takeWhile_isDigit
      fun d hd => hall d (List.mem_cons_of_mem c hd)
    have hzero : c ≠ '0' := by
      intro hc
      rw [hdigits, hc] at hhead
      exact hhead rfl
    rw [hdigits, List.cons_append]
    simp [readWhole?, hzero, hall c List.mem_cons_self, htake, hdrop]

/-- A number below the bound has not too many digits. -/
theorem length_toDigits_le {n : Nat} (h : n < numberBound) :
    (Nat.toDigits 10 n).length ≤ Text.maxDigits := by
  have hpos : 0 < Text.maxDigits := by decide
  unfold numberBound at h
  -- The bound itself is far too large a number to be computed.
  generalize Text.maxDigits = most at h hpos ⊢
  exact (Nat.length_toDigits_le_iff (by decide) hpos).mpr h

/-- The written digits of a number that is not too long are read as that number. -/
theorem readMagnitude_toDigits (negative : Bool) {n : Nat} (h : n < numberBound)
    {rest : List Char} (hrest : Ends rest) :
    readMagnitude negative (Nat.toDigits 10 n ++ rest) =
      .ok (.int (if negative then -n else n), rest) := by
  have hvalue : digitsValue (Nat.toDigits 10 n) = n := by
    rw [digitsValue, ← Nat.ofDigitChars_eq_foldl, Nat.ofDigitChars_ten_toDigits]
  simp [readMagnitude, readWhole?_toDigits n hrest, hrest.readFraction_eq, hrest.readExponent_eq,
    Nat.not_lt.mpr (length_toDigits_le h), hvalue]

/-- Digits are taken for a number, with or without a sign. -/
theorem readScalar_digits {n : Nat} (rest : List Char) :
    readScalar (Nat.toDigits 10 n ++ rest) = readMagnitude false (Nat.toDigits 10 n ++ rest) ∧
      readScalar ('-' :: (Nat.toDigits 10 n ++ rest)) =
        readMagnitude true (Nat.toDigits 10 n ++ rest) := by
  obtain ⟨c, digits, hdigits⟩ := List.exists_cons_of_ne_nil (Nat.toDigits_ne_nil (n := n) (b := 10))
  have hdigit : Text.isDigit c = true := isDigit_of_mem_toDigits (hdigits ▸ List.mem_cons_self)
  have hne : ∀ letter, Text.isDigit letter = false → c ≠ letter := by
    rintro letter hletter rfl
    rw [hdigit] at hletter
    cases hletter
  have hI := hne 'I' rfl
  rw [hdigits, List.cons_append]
  constructor <;>
    simp [readScalar, readNumber, hne 'n' rfl, hne 't' rfl, hne 'f' rfl, hne 'N' rfl, hI,
      hne '-' rfl]

/-- A written whole number is read back. -/
theorem readScalar_writeInt {n : Int} (h : n.natAbs < numberBound) {rest : List Char}
    (hrest : Ends rest) : readScalar (writeInt n ++ rest) = .ok (.int n, rest) := by
  cases n with
  | ofNat n =>
    rw [writeInt, (readScalar_digits rest).1, readMagnitude_toDigits (n := n) false h hrest]
    rfl
  | negSucc n =>
    rw [writeInt, List.cons_append, (readScalar_digits rest).2,
      readMagnitude_toDigits (n := n + 1) true h hrest]
    rfl

end TreeLint.Json
