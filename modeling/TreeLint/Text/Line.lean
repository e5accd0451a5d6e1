/-!
# Lines of a text

A line ends at a line feed, a carriage return, both in that order, or one of the two Unicode
separators. A line map keeps the characters of a text and the offset at which each line starts;
offsets, lines and columns count characters.
-/

namespace TreeLint.Text

/-- The characters that end a line. -/
def isLineBreak (c : Char) : Bool :=
  c == '\n' || c == '\r' || c == '\u2028' || c == '\u2029'

/-- The offsets just after the line breaks of a text that begins at the given offset. -/
def startsAfter : Nat → List Char → List Nat
  | _, [] => []
  | pos, '\r' :: '\n' :: rest => (pos + 2) :: startsAfter (pos + 2) rest
  | pos, c :: rest =>
    if isLineBreak c then (pos + 1) :: startsAfter (pos + 1) rest
    else startsAfter (pos + 1) rest

/-- Every line after the first starts behind the offset at which its text begins. -/
theorem lt_of_mem_startsAfter {pos start : Nat} {text : List Char}
    (h : start ∈ startsAfter pos text) : pos < start := by
  fun_induction startsAfter pos text with
  | case1 => simp at h
  | case2 pos rest ih =>
    rcases List.mem_cons.mp h with rfl | h
    · omega
    · have := ih h
      omega
  | case3 pos c rest _ _ ih =>
    rcases List.mem_cons.mp h with rfl | h
    · omega
    · have := ih h
      omega
  | case4 pos c rest _ _ ih =>
    have := ih h
    omega

/-- No line starts behind the end of the text. -/
theorem le_of_mem_startsAfter {pos start : Nat} {text : List Char}
    (h : start ∈ startsAfter pos text) : start ≤ pos + text.length := by
  fun_induction startsAfter pos text with
  | case1 => simp at h
  | case2 pos rest ih =>
    simp only [List.length_cons]
    rcases List.mem_cons.mp h with rfl | h
    · omega
    · have := ih h
      omega
  | case3 pos c rest _ _ ih =>
    simp only [List.length_cons]
    rcases List.mem_cons.mp h with rfl | h
    · omega
    · have := ih h
      omega
  | case4 pos c rest _ _ ih =>
    have := ih h
    simp only [List.length_cons]
    omega

/-- A text together with the offsets at which its lines start. -/
structure LineMap where
  chars : List Char
  starts : List Nat

/-- An offset that does not fall inside a text of the given length. -/
structure OffsetError where
  offset : Int
  length : Nat
deriving DecidableEq

/-- The wording of an offset outside the text. -/
def OffsetError.message (e : OffsetError) : String :=
  s!"offset {e.offset} is outside the source text (length {e.length})"

/-- A line and a column, both counted from one. -/
structure Position where
  line : Nat
  column : Nat
deriving DecidableEq

namespace LineMap

/-- The line map of a text: the first line starts at zero, each other one after a break. -/
def ofText (text : String) : LineMap :=
  { chars := text.toList, starts := 0 :: startsAfter 0 text.toList }

/-- The number of lines, at least one. -/
def lineCount (map : LineMap) : Nat :=
  map.starts.length

/-- The line and column of an offset. The end of the text is still inside it. -/
def position (map : LineMap) (offset : Int) : Except OffsetError Position :=
  if offset < 0 ∨ (map.chars.length : Int) < offset then
    .error ⟨offset, map.chars.length⟩
  else
    let upTo := map.starts.takeWhile (· ≤ offset.toNat)
    .ok ⟨upTo.length, offset.toNat - upTo.getLastD 0 + 1⟩

/-- An offset has no position exactly when it lies outside the text. -/
theorem position_eq_error_iff {map : LineMap} {offset : Int} {e : OffsetError} :
    map.position offset = .error e ↔
      (offset < 0 ∨ (map.chars.length : Int) < offset) ∧ e = ⟨offset, map.chars.length⟩ := by
  unfold position
  by_cases h : offset < 0 ∨ (map.chars.length : Int) < offset
  · rw [if_pos h, Except.error.injEq, eq_comm]
    exact (and_iff_right h).symm
  · rw [if_neg h]
    exact ⟨(nomatch ·), fun hout => absurd hout.1 h⟩

/-- The characters of a line, counted from one, without its break. Lines that do not exist are
empty. -/
def lineChars (map : LineMap) (line : Int) : List Char :=
  if line < 1 then [] else
    let index := line.toNat - 1
    match map.starts[index]? with
    | none => []
    | some start =>
      let stop := map.starts[index + 1]?.getD map.chars.length
      let slice := (map.chars.drop start).take (stop - start)
      (slice.reverse.dropWhile isLineBreak).reverse

/-- The text of a line, counted from one, without its break. -/
def lineText (map : LineMap) (line : Int) : String :=
  String.ofList (map.lineChars line)

/-- All lines with their numbers, in order. -/
def numberedLines (map : LineMap) : List (Nat × List Char) :=
  (List.range map.lineCount).map fun index => (index + 1, map.lineChars (index + 1))

end LineMap

end TreeLint.Text
