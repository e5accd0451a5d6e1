import Mathlib.Data.List.Basic
import TreeLint.Json.Reader
import TreeLint.Json.Writer

/-!
# Written texts are read back

A text is written with one or two code units for each character, and a unit that is not itself a
printable ASCII character stands as an escape. The reader first gathers the code units, up to the
closing quote, and then joins them into characters. Both steps are inverted here: what was written
for one character gives back its units in front of any further text, and the units of a text join
into that text, because no character of its own is half of a pair.
-/

namespace TreeLint.Json

/-! ### Hexadecimal digits -/

/-- A hexadecimal digit has the value that it was written for. -/
theorem hexValue?_digitChar {d : Nat} (h : d < 16) : Text.hexValue? d.digitChar = some d := by
  have hall : ∀ d : Fin 16, Text.hexValue? d.val.digitChar = some d.val := by decide
  exact hall ⟨d, h⟩

/-- All digits but the last are those of the number without its last digit, in one place less. -/
theorem hexDigits_succ {width : Nat} (hwidth : 0 < width) (n : Nat) :
    Text.hexDigits (width + 1) n = Text.hexDigits width (n / 16) ++ [(n % 16).digitChar] := by
  rcases Nat.lt_or_ge n 16 with hn | hn
  · have hzeros : List.replicate width '0' = List.replicate (width - 1) '0' ++ ['0'] := by
      rw [← List.replicate_succ', Nat.sub_add_cancel hwidth]
    simp [Text.hexDigits, Nat.toDigits_of_lt_base hn, Nat.div_eq_of_lt hn, Nat.mod_eq_of_lt hn,
      hzeros]
  · simp [Text.hexDigits, Nat.toDigits_of_base_le (by decide) hn]

/-- A code unit is written with four hexadecimal digits. -/
theorem hexDigits_four {unit : Nat} (h : unit < 0x10000) :
    Text.hexDigits 4 unit = [(unit / 0x1000).digitChar, (unit / 0x100 % 16).digitChar,
      (unit / 0x10 % 16).digitChar, (unit % 16).digitChar] := by
  have hfirst : unit / 0x1000 < 16 := by omega
  have hone : Text.hexDigits 1 (unit / 0x1000) = [(unit / 0x1000).digitChar] := by
    simp [Text.hexDigits, Nat.toDigits_of_lt_base hfirst]
  have hlast : unit / 16 / 16 / 16 = unit / 0x1000 ∧ unit / 16 / 16 = unit / 0x100 := by omega
  rw [hexDigits_succ (by decide), hexDigits_succ (by decide), hexDigits_succ (by decide),
    hlast.1, hlast.2, hone]
  rfl

/-- The four digits of a code unit give back the unit. -/
theorem hexUnit?_digitChar {unit : Nat} (h : unit < 0x10000) :
    hexUnit? (unit / 0x1000).digitChar (unit / 0x100 % 16).digitChar
      (unit / 0x10 % 16).digitChar (unit % 16).digitChar = some unit := by
  have h₁ : unit / 0x1000 < 16 := by omega
  have h₂ : unit / 0x100 % 16 < 16 := by omega
  have h₃ : unit / 0x10 % 16 < 16 := by omega
  have h₄ : unit % 16 < 16 := by omega
  have hvalue : ((unit / 0x1000 * 16 + unit / 0x100 % 16) * 16 + unit / 0x10 % 16) * 16 +
      unit % 16 = unit := by omega
  simp [hexUnit?, hexValue?_digitChar h₁, hexValue?_digitChar h₂, hexValue?_digitChar h₃,
    hexValue?_digitChar h₄, hvalue]

/-! ### Code units -/

/-- No character lies behind the last code point. -/
theorem toNat_lt_last (c : Char) : c.toNat < 0x110000 := by
  have hvalid : c.toNat.isValidChar := c.valid
  simp only [Nat.isValidChar] at hvalid
  omega

/-- The code units of a character: the character itself, or a pair of halves. -/
def units (c : Char) : List Nat :=
  if c.toNat < 0x10000 then [c.toNat]
  else [0xd800 + (c.toNat - 0x10000) / 0x400, 0xdc00 + (c.toNat - 0x10000) % 0x400]

/-- Put code units before those that follow them. -/
def prependUnits (front : List Nat) (result : Except Refusal (List Nat × List Char)) :
    Except Refusal (List Nat × List Char) :=
  front.foldr consUnit result

/-- An escaped code unit is read as that unit, whatever text follows. -/
theorem readUnits_escapeUnit (opened : List Char) {unit : Nat} (h : unit < 0x10000) (c : Char)
    (rest : List Char) :
    readUnits opened (escapeUnit unit ++ c :: rest) =
      consUnit unit (readUnits opened (c :: rest)) := by
  rw [escapeUnit, hexDigits_four h]
  simp only [List.cons_append, List.nil_append, readUnits]
  rw [hexUnit?_digitChar h]

/-- A character from the printable part of ASCII stands for itself, the quote and the backslash
apart. -/
theorem readUnits_plain (opened : List Char) {c : Char} (hquote : c ≠ '"') (hslash : c ≠ '\\')
    (hprintable : 0x20 ≤ c.toNat) (rest : List Char) :
    readUnits opened (c :: rest) = consUnit c.toNat (readUnits opened rest) := by
  have hcontrol : ¬ c.toNat < 0x20 := Nat.not_lt.mpr hprintable
  cases rest <;> simp [readUnits, hslash, hcontrol]

/-- What is written for a character is read as its code units, whatever text follows. -/
theorem readUnits_escapeChar (opened : List Char) (c next : Char) (rest : List Char) :
    readUnits opened (escapeChar c ++ next :: rest) =
      prependUnits (units c) (readUnits opened (next :: rest)) := by
  have hletter : ∀ letter : Char, letter.toNat < 0x10000 → units letter = [letter.toNat] :=
    fun letter h => if_pos h
  by_cases hshort : c ∈ ['"', '\\', '\n', '\r', '\t', '\x08', '\x0c']
  · simp only [List.mem_cons, List.not_mem_nil, or_false] at hshort
    rcases hshort with rfl | rfl | rfl | rfl | rfl | rfl | rfl <;>
      simp [escapeChar, readUnits, escapeLetter?, prependUnits, units]
  simp only [List.mem_cons, List.not_mem_nil, or_false, not_or] at hshort
  obtain ⟨hquote, hslash, hline, hreturn, htab, hback, hfeed⟩ := hshort
  by_cases hprintable : 0x20 ≤ c.toNat ∧ c.toNat < 0x7f
  · have hescape : escapeChar c = [c] := by
      simp [escapeChar, hquote, hslash, hline, hreturn, htab, hback, hfeed, hprintable]
    rw [hescape, hletter c (by omega)]
    exact readUnits_plain opened hquote hslash hprintable.1 (next :: rest)
  by_cases hsmall : c.toNat < 0x10000
  · have hescape : escapeChar c = escapeUnit c.toNat := by
      have hnot : (decide (0x20 ≤ c.toNat) && decide (c.toNat < 0x7f)) = false := by simp; omega
      simp [escapeChar, hquote, hslash, hline, hreturn, htab, hback, hfeed, hsmall, hnot]
    rw [hescape, hletter c hsmall, readUnits_escapeUnit opened hsmall]
    rfl
  · have hescape : escapeChar c = escapeUnit (0xd800 + (c.toNat - 0x10000) / 0x400) ++
        escapeUnit (0xdc00 + (c.toNat - 0x10000) % 0x400) := by
      have hnot : (decide (0x20 ≤ c.toNat) && decide (c.toNat < 0x7f)) = false := by simp; omega
      simp [escapeChar, hquote, hslash, hline, hreturn, htab, hback, hfeed, hsmall, hnot]
    have hlast : c.toNat < 0x110000 := toNat_lt_last c
    have hhigh : 0xd800 + (c.toNat - 0x10000) / 0x400 < 0x10000 := by omega
    have hlow : 0xdc00 + (c.toNat - 0x10000) % 0x400 < 0x10000 := by omega
    -- The second half begins with a backslash, which is the character after the first half.
    have hsecond := readUnits_escapeUnit opened hlow next rest
    rw [escapeUnit, List.cons_append] at hsecond
    rw [hescape, List.append_assoc, units, if_neg hsmall, escapeUnit.eq_def (0xdc00 + _),
      List.cons_append, readUnits_escapeUnit opened hhigh, hsecond]
    rfl

/-- The written characters of a text are read as its code units, up to the closing quote. -/
theorem readUnits_flatMap_escapeChar (opened text rest : List Char) :
    readUnits opened (text.flatMap escapeChar ++ '"' :: rest) =
      .ok (text.flatMap units, rest) := by
  induction text with
  | nil => simp [readUnits]
  | cons c text ih =>
    obtain ⟨next, more, hmore⟩ :
        ∃ next more, text.flatMap escapeChar ++ '"' :: rest = next :: more :=
      List.exists_cons_of_ne_nil (by simp)
    rw [List.flatMap_cons, List.append_assoc, hmore, readUnits_escapeChar, ← hmore, ih,
      List.flatMap_cons, prependUnits]
    unfold units
    split <;> rfl

/-! ### Joining code units -/

/-- A character is no half of a pair. -/
theorem isHighUnit_toNat (c : Char) : isHighUnit c.toNat = false := by
  have hvalid : c.toNat.isValidChar := c.valid
  simp only [Nat.isValidChar] at hvalid
  simp [isHighUnit]
  omega

/-- The unit of a character stands for that character. -/
theorem unitChar_toNat (c : Char) : unitChar c.toNat = c := by
  have hvalid : c.toNat.isValidChar := c.valid
  rw [unitChar, if_pos hvalid, Char.ofNat_toNat]

/-- The code units of a character in front of others join into that character. -/
theorem joinUnits_units_append (c : Char) (rest : List Nat) :
    joinUnits (units c ++ rest) = c :: joinUnits rest := by
  by_cases hsmall : c.toNat < 0x10000
  · rw [units, if_pos hsmall]
    cases rest with
    | nil => simp [joinUnits, unitChar_toNat]
    | cons low rest => simp [joinUnits, isHighUnit_toNat, unitChar_toNat]
  · have hlast : c.toNat < 0x110000 := toNat_lt_last c
    have hhigh : isHighUnit (0xd800 + (c.toNat - 0x10000) / 0x400) = true := by
      simp [isHighUnit]
      omega
    have hlow : isLowUnit (0xdc00 + (c.toNat - 0x10000) % 0x400) = true := by
      simp [isLowUnit]
      omega
    have hjoined : 0x10000 + (0xd800 + (c.toNat - 0x10000) / 0x400 - 0xd800) * 0x400 +
        (0xdc00 + (c.toNat - 0x10000) % 0x400 - 0xdc00) = c.toNat := by omega
    rw [units, if_neg hsmall]
    simp only [List.cons_append, List.nil_append, joinUnits, hhigh, hlow, Bool.and_self, if_true,
      hjoined, Char.ofNat_toNat]

/-- The code units of a text join into that text. -/
theorem joinUnits_flatMap_units (text : List Char) : joinUnits (text.flatMap units) = text := by
  induction text with
  | nil => rfl
  | cons c text ih => rw [List.flatMap_cons, joinUnits_units_append, ih]

/-- After its opening quote, a written text is read as that text. -/
theorem readText_writeText (s : String) (rest : List Char) :
    readText (s.toList.flatMap escapeChar ++ '"' :: rest) = .ok (s, rest) := by
  rw [readText, readUnits_flatMap_escapeChar]
  simp only [joinUnits_flatMap_units, String.ofList_toList]

end TreeLint.Json
