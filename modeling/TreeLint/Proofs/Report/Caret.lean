import TreeLint.Proofs.Json.Number
import TreeLint.Proofs.Report.Token
import TreeLint.Report.Pretty

/-!
# Where the caret stands

A diagnostic is shown with its source line behind a line number and a bar, and with a row of carets
behind a bar of its own. The number is moved to the right end of a field of three characters, or
takes as many as it has digits, and a space stands between it and its bar. The bar of the carets
stands behind three characters, whatever the number is, so that it is at least one character left of
the other bar. Behind both bars the column is counted alike. The first caret is therefore never
below the character at the column, but as far left of it as the one bar is left of the other.
-/

namespace TreeLint

/-- Without colours a text is left as it is. -/
@[simp] theorem Palette.paint_plain (color : Color) (text : String) :
    (Palette.mk false).paint color text = text := by
  simp [paint, on, off, toString]

namespace Text.LineMap

/-- The lines of a text have no characters in them that end a line. -/
theorem isLine_lineChars {text : String} {line : Nat}
    (hline : line < (ofText text).starts.length) : IsLine ((ofText text).lineChars (line + 1)) := by
  obtain ⟨rows, last, hlayout, htext⟩ := exists_layout text.toList
  obtain rfl : text = String.ofList (joinRows rows ++ last) := by
    rw [htext, String.ofList_toList]
  change line < lineCount _ at hline
  rw [lineCount_layout hlayout] at hline
  have hi := List.getElem?_eq_getElem hline
  rw [lineChars_layout hlayout hi]
  exact (exists_break_after hlayout hi).1

/-- A character of a text that ends no line is found on its line. -/
theorem getElem?_lineChars {text : String} {line start first : Nat} {c : Char}
    (hstart : (ofText text).starts[line]? = some start)
    (hnext : ∀ next, (ofText text).starts[line + 1]? = some next → start + first < next)
    (hc : text.toList[start + first]? = some c) (hbreak : isLineBreak c = false) :
    ((ofText text).lineChars (line + 1))[first]? = some c := by
  obtain ⟨back, hdrop, hback⟩ := exists_drop_eq hstart hnext
  rw [← List.head?_drop, hdrop] at hc
  rw [← List.head?_drop]
  -- If nothing of the line were left, the character would be one that ends it.
  cases hleft : ((ofText text).lineChars (line + 1)).drop first with
  | nil =>
    rw [hleft, List.nil_append] at hc
    rw [hback c hc] at hbreak
    cases hbreak
  | cons _ _ =>
    rw [hleft] at hc
    exact hc

end Text.LineMap

namespace Pretty

open Text (LineMap)

/-- The index at which a character first stands in a row. -/
def index? (c : Char) (row : String) : Option Nat :=
  row.toList.idxOf? c

/-- A character behind a part without it is found at the length of that part. -/
theorem index?_of_toList_eq {c : Char} {row : String} {front back : List Char}
    (hrow : row.toList = front ++ c :: back) (hfront : c ∉ front) :
    index? c row = some front.length := by
  have hnone : front.findIdx? (· == c) = none := by
    rw [List.findIdx?_eq_none_iff]
    exact fun d hd => beq_false_of_ne fun hdc => hfront (hdc ▸ hd)
  rw [index?, hrow, List.idxOf?, List.findIdx?_append, hnone]
  simp [List.findIdx?_cons]

/-- The first caret of a row stands below the character at a column of a source row: the columns of
a source row are counted from the space behind its bar. -/
def CaretBelow (source underline : String) (column : Nat) : Prop :=
  ∃ bar, index? '|' source = some bar ∧ index? '^' underline = some (bar + 1 + column)

/-- A line number takes a field of three characters, or as many as it has digits. -/
def numberWidth (line : Nat) : Nat :=
  max 3 (toString line).length

/-- A source row with a character at a column, and the row of carets below it: where their bars, the
character and the first caret stand. -/
structure CaretRows (source underline : String) (line column : Nat) (c : Char) : Prop where
  sourceBar : index? '|' source = some (numberWidth line + 1)
  underlineBar : index? '|' underline = some 3
  character : source.toList[numberWidth line + 2 + column]? = some c
  caret : index? '^' underline = some (4 + column)

/-- In such rows the first caret is not below the character, as the field of the number is wider
than what stands in front of the other bar. -/
theorem CaretRows.not_caretBelow {source underline : String} {line column : Nat} {c : Char}
    (h : CaretRows source underline line column c) : ¬ CaretBelow source underline column := by
  rintro ⟨bar, hbar, hcaret⟩
  obtain rfl : numberWidth line + 1 = bar := Option.some.inj (h.sourceBar.symm.trans hbar)
  have hplace : 4 + column = numberWidth line + 1 + 1 + column :=
    Option.some.inj (h.caret.symm.trans hcaret)
  have hwidth : 3 ≤ numberWidth line := Nat.le_max_left _ _
  omega

/-! ### The source row -/

section Source

variable {lines : LineMap} {d : Diagnostic} {line : Nat}

/-- A text moved to the right end of a field takes the field, or its own length. -/
theorem length_padLeft (width : Nat) (text : String) :
    (padLeft width text).toList.length = max width text.length := by
  rw [padLeft, String.toList_append, String.toList_ofList, List.length_append,
    List.length_replicate, String.length_toList]
  omega

/-- In the field of a line number stand spaces and digits. -/
theorem mem_padLeft {width : Nat} {c : Char}
    (h : c ∈ (padLeft width (toString (line : Int))).toList) :
    c = ' ' ∨ Text.isDigit c = true := by
  rw [padLeft, String.toList_append, String.toList_ofList, List.mem_append] at h
  rcases h with hspace | hdigit
  · exact .inl (List.eq_of_mem_replicate hspace)
  · change c ∈ (line.repr).toList at hdigit
    rw [Nat.repr_eq_ofList_toDigits, String.toList_ofList] at hdigit
    exact .inr (Json.isDigit_of_mem_toDigits hdigit)

/-- A source row is the line number in its field, a bar, and the line, each behind a space. -/
theorem toList_sourceRow (lines : LineMap) (hline : d.line = line) :
    ∃ field, (sourceRow ⟨false⟩ lines d).toList = field ++ '|' :: ' ' :: lines.lineChars line ∧
      field.length = numberWidth line + 1 ∧ ∀ c ∈ field, c = ' ' ∨ Text.isDigit c = true := by
  refine ⟨(padLeft 3 (toString (line : Int))).toList ++ [' '], ?_, ?_, fun c hc => ?_⟩
  · simp [sourceRow, LineMap.lineText, hline, toString]
  · rw [List.length_append, length_padLeft]
    rfl
  · rcases List.mem_append.mp hc with hnumber | hspace
    · exact mem_padLeft hnumber
    · exact .inl (List.mem_singleton.mp hspace)

/-- The bar of a source row stands behind the field of the line number. -/
theorem index?_bar_sourceRow (hline : d.line = line) :
    index? '|' (sourceRow ⟨false⟩ lines d) = some (numberWidth line + 1) := by
  obtain ⟨field, hrow, hlength, hfield⟩ := toList_sourceRow lines hline
  rw [← hlength]
  refine index?_of_toList_eq hrow fun hbar => ?_
  rcases hfield _ hbar with hbar | hbar <;> cases hbar

/-- The characters of the line stand two places behind the bar of a source row. -/
theorem getElem?_sourceRow (hline : d.line = line) (first : Nat) :
    (sourceRow ⟨false⟩ lines d).toList[numberWidth line + 3 + first]? =
      (lines.lineChars line)[first]? := by
  obtain ⟨field, hrow, hlength, _⟩ := toList_sourceRow lines hline
  have hindex : numberWidth line + 3 + first - field.length = first + 1 + 1 := by omega
  rw [hrow, List.getElem?_append_right (by omega), hindex, List.getElem?_cons_succ,
    List.getElem?_cons_succ]

/-- A source row is one row: neither the field of its number nor its line has a line feed. -/
theorem lineFeed_not_mem_sourceRow (hline : d.line = line)
    (h : Text.IsLine (lines.lineChars line)) :
    '\n' ∉ (sourceRow ⟨false⟩ lines d).toList := by
  obtain ⟨field, hrow, _, hfield⟩ := toList_sourceRow lines hline
  have hnumber : '\n' ∉ field := fun hmem => by
    rcases hfield _ hmem with hmem | hmem <;> cases hmem
  have hrest : '\n' ∉ lines.lineChars line := fun hmem => by
    cases h _ hmem
  simp [hrow, hnumber, hrest]

end Source

/-! ### The row of carets -/

section Carets

variable {d : Diagnostic} {first : Nat} (span : Int)

/-- A row of carets is a bar behind three spaces, another space, the spaces up to the column, and
at least one caret. -/
theorem toList_underlineRow (hcolumn : d.column = first + 1) :
    ∃ more, (underlineRow ⟨false⟩ span d).toList =
      [' ', ' ', ' '] ++ '|' :: ' ' :: (List.replicate first ' ' ++ '^' :: more) ∧
      ∀ c ∈ more, c = '^' := by
  obtain ⟨carets, hcarets⟩ : ∃ carets, (max 1 span).toNat = carets + 1 :=
    ⟨(max 1 span).toNat - 1, by omega⟩
  refine ⟨List.replicate carets '^', ?_, fun c hc => List.eq_of_mem_replicate hc⟩
  simp [underlineRow, gutter, Text.copies, hcolumn, hcarets, List.replicate_succ, toString]

/-- The bar of a row of carets stands behind three characters. -/
theorem index?_bar_underlineRow (hcolumn : d.column = first + 1) :
    index? '|' (underlineRow ⟨false⟩ span d) = some 3 := by
  obtain ⟨more, hrow, _⟩ := toList_underlineRow span hcolumn
  exact index?_of_toList_eq hrow (by decide)

/-- The first caret stands at the column behind the bar of its row. -/
theorem index?_caret_underlineRow (hcolumn : d.column = first + 1) :
    index? '^' (underlineRow ⟨false⟩ span d) = some (5 + first) := by
  obtain ⟨more, hrow, _⟩ := toList_underlineRow span hcolumn
  have hfront : (underlineRow ⟨false⟩ span d).toList =
      ([' ', ' ', ' ', '|', ' '] ++ List.replicate first ' ') ++ '^' :: more := by
    rw [hrow]
    rfl
  have hlength : ([' ', ' ', ' ', '|', ' '] ++ List.replicate first ' ').length = 5 + first := by
    rw [List.length_append, List.length_replicate]
    rfl
  rw [← hlength]
  refine index?_of_toList_eq hfront fun hcaret => ?_
  rcases List.mem_append.mp hcaret with hcaret | hcaret
  · exact absurd hcaret (by decide)
  · cases List.eq_of_mem_replicate hcaret

/-- A row of carets is one row. -/
theorem lineFeed_not_mem_underlineRow (hcolumn : d.column = first + 1) :
    '\n' ∉ (underlineRow ⟨false⟩ span d).toList := by
  obtain ⟨more, hrow, hmore⟩ := toList_underlineRow span hcolumn
  have hcarets : '\n' ∉ more := fun hmem => by
    cases hmore _ hmem
  simp [hrow, hcarets, List.mem_replicate]

end Carets

/-! ### Both rows -/

/-- The rows of a diagnostic at a character of its line. -/
theorem caretRows {lines : LineMap} {d : Diagnostic} {line first : Nat} {c : Char} (span : Int)
    (hline : d.line = line) (hcolumn : d.column = first + 1)
    (hc : (lines.lineChars line)[first]? = some c) :
    CaretRows (sourceRow ⟨false⟩ lines d) (underlineRow ⟨false⟩ span d) line (first + 1) c where
  sourceBar := index?_bar_sourceRow hline
  underlineBar := index?_bar_underlineRow span hcolumn
  character := by
    have hplace : numberWidth line + 2 + (first + 1) = numberWidth line + 3 + first := by omega
    rw [hplace, getElem?_sourceRow hline, hc]
  caret := by
    have hplace : 4 + (first + 1) = 5 + first := by omega
    rw [hplace]
    exact index?_caret_underlineRow span hcolumn

/-- A diagnostic whose line exists is shown with its source line and, below it, a row of carets. -/
theorem render_of_showsSource (palette : Palette) {lines : LineMap} {d : Diagnostic} (span : Int)
    (h : showsSource lines d = true) :
    ∃ back, render palette lines span d = "\n".intercalate
      ([header palette d, placeRow palette d, gutter palette] ++
        sourceRow palette lines d :: underlineRow palette span d :: back) := by
  refine ⟨gutter palette :: helpRows palette d, ?_⟩
  rw [render, rows, sourceRows, if_pos h]
  rfl

/-- A diagnostic is not refused if there is room for its column and its span. -/
theorem renderChecked_eq_ok {palette : Palette} {lines : LineMap} {d : Diagnostic} {span : Int}
    (hleast : 1 ≤ d.column) (hcolumn : d.column - 1 ≤ Text.maxCopies)
    (hspan : span ≤ Text.maxCopies) :
    renderChecked palette lines span d = .ok (render palette lines span d) := by
  have hcheck {count : Int} (hzero : 0 ≤ count) (hroom : count ≤ Text.maxCopies) :
      Text.checkCount count = .ok () :=
    Text.checkCount_eq_ok (by omega) hroom
  have hone : (1 : Int) ≤ Text.maxCopies := by decide
  rw [renderChecked, checkSize, hcheck (by omega) hcolumn, hcheck (by omega) (by omega)]
  split <;> rfl

/-- A diagnostic that is placed at a character of a line is shown with the line in one row and the
carets in the next. The bar of the source row stands behind the field of the line number, and that
of the carets behind three characters. Behind its bar each row counts the column alike. So the first
caret stands left of the character, by the width of the field less two, whatever line and column
the character has. -/
theorem caret_left_of_character (text : String) (offset : Nat) (c : Char)
    (hc : text.toList[offset]? = some c) (hbreak : Text.isLineBreak c = false)
    (fileName message code rule : String) (severity : Severity) (suggestion : Option String)
    (span : Int) :
    ∃ (d : Diagnostic) (line column : Nat) (front back : List String) (source underline : String),
      Diagnostic.place fileName (.ofText text) offset message code rule severity suggestion =
        .ok d ∧
      d.line = line ∧ d.column = column ∧
      render ⟨false⟩ (.ofText text) span d =
        "\n".intercalate (front ++ source :: underline :: back) ∧
      front.length = 3 ∧ '\n' ∉ source.toList ∧ '\n' ∉ underline.toList ∧
      CaretRows source underline line column c ∧ ¬ CaretBelow source underline column ∧
      (text.length ≤ Text.maxCopies → span ≤ Text.maxCopies →
        renderChecked ⟨false⟩ (.ofText text) span d =
          .ok (render ⟨false⟩ (.ofText text) span d)) := by
  have hoffset : offset < text.length := by
    rw [← String.length_toList]
    exact (List.getElem?_eq_some_iff.mp hc).1
  obtain ⟨before, start, behind, hcut, hposition⟩ := LineMap.exists_cut (Nat.le_of_lt hoffset)
  obtain ⟨first, rfl⟩ := Nat.exists_eq_add_of_le hcut.start_le
  rw [Nat.add_sub_cancel_left] at hposition
  have hstart : (LineMap.ofText text).starts[before.length]? = some start := by
    simp [hcut.starts_eq]
  let d : Diagnostic := ⟨fileName, (before.length + 1 : Nat), (first + 1 : Nat), message, code,
    rule, severity, (start + first : Nat), suggestion⟩
  have hchar := LineMap.getElem?_lineChars hstart hcut.isPositionOf.lt_next hc hbreak
  have hexists := (List.getElem?_eq_some_iff.mp hstart).1
  have hshows : showsSource (.ofText text) d = true := by
    rw [showsSource, Bool.and_eq_true, decide_eq_true_eq, decide_eq_true_eq]
    exact ⟨Int.ofNat_le.mpr (Nat.succ_pos _), Int.ofNat_le.mpr hexists⟩
  obtain ⟨back, hrender⟩ := render_of_showsSource ⟨false⟩ span hshows
  have hline : d.line = (before.length + 1 : Nat) := rfl
  have hcolumn : d.column = first + 1 := Int.natCast_succ _
  have hrows := caretRows span hline hcolumn hchar
  refine ⟨d, before.length + 1, first + 1, _, back, _, _, by rw [Diagnostic.place, hposition],
    hline, hcolumn, hrender, rfl,
    lineFeed_not_mem_sourceRow hline (LineMap.isLine_lineChars hexists),
    lineFeed_not_mem_underlineRow span hcolumn, hrows, hrows.not_caretBelow, fun hroom hspan => ?_⟩
  exact renderChecked_eq_ok (by omega) (by omega) hspan

/-- The text of a declaration whose name starts at the fifth character. -/
def namedText : String :=
  "let a_b;"

/-- The rows at the name are found in the output, which has the row of carets below the source
row, and the caret is not below the first letter of the name. -/
theorem caret_left_in_namedText :
    namedText.toList[4]? = some 'a' ∧ Text.isLineBreak 'a' = false ∧
    ∃ (front back : List String) (source underline : String),
      "warning: no\n  --> x.ts:1:5\n   |\n  1 | let a_b;\n   |     ^\n   |" =
        "\n".intercalate (front ++ source :: underline :: back) ∧
      front.length = 3 ∧ CaretRows source underline 1 5 'a' ∧ ¬ CaretBelow source underline 5 := by
  refine ⟨by decide, by decide, ?_⟩
  obtain ⟨d, line, column, front, back, source, underline, hplace, hline, hcolumn, hrender, hfront,
    _, _, hrows, hnot, _⟩ := caret_left_of_character namedText 4 'a' (by decide) (by decide) "x.ts"
      "no" "" "" .warning none 1
  obtain rfl : ⟨"x.ts", 1, 5, "no", "", "", .warning, 4, none⟩ = d := Except.ok.inj hplace
  obtain rfl : 1 = line := Int.ofNat.inj hline
  obtain rfl : 5 = column := Int.ofNat.inj hcolumn
  exact ⟨front, back, source, underline, hrender, hfront, hrows, hnot⟩

/-- The first letter of the name stands at index ten of its row and the caret below it at index
nine. -/
theorem caretBelow_fails_in_namedText :
    ∃ d, Diagnostic.place "x.ts" (.ofText namedText) 4 "no" "TL003" "camel-case-naming" .warning
        none = .ok d ∧ d.column = 5 ∧
      render ⟨false⟩ (.ofText namedText) 1 d = "\n".intercalate
        ["warning[TL003]: no", "  --> x.ts:1:5", "   |", "  1 | let a_b;", "   |     ^", "   |"] ∧
      "  1 | let a_b;".toList[10]? = some 'a' ∧ index? '^' "   |     ^" = some 9 ∧
      ¬ CaretBelow "  1 | let a_b;" "   |     ^" 5 := by
  have hbar : index? '|' "  1 | let a_b;" = some 4 := by decide
  have hcaret : index? '^' "   |     ^" = some 9 := by decide
  refine ⟨⟨"x.ts", 1, 5, "no", "TL003", "camel-case-naming", .warning, 4, none⟩, rfl, rfl,
    by decide, by decide, hcaret, ?_⟩
  rintro ⟨bar, hsource, hunderline⟩
  rw [hbar] at hsource
  cases hsource
  rw [hcaret] at hunderline
  cases hunderline

end Pretty

end TreeLint
