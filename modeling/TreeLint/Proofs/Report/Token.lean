import TreeLint.Proofs.Report.Editor
import TreeLint.Proofs.Text.Layout

/-!
# Ranges cover tokens

A diagnostic is placed at an offset of a text, and an editor is told a range on one line. The end of
the range is looked for on the line alone, without its break. As a break ends a token, what is found
there is the token of the whole text at the offset. This holds on a break as well, between its two
characters, and at the end of the text, where there is no token and the range has one character.
-/

namespace TreeLint

namespace Text.LineMap

/-- From a place before the next line on, a text is what is left of the line, and nothing else or
something that begins with a character that ends a line. -/
theorem exists_drop_eq {text : String} {line start first : Nat}
    (hstart : (ofText text).starts[line]? = some start)
    (hnext : ∀ next, (ofText text).starts[line + 1]? = some next → start + first < next) :
    ∃ back, text.toList.drop (start + first) =
        ((ofText text).lineChars (line + 1)).drop first ++ back ∧
      ∀ c ∈ back.head?, isLineBreak c = true := by
  obtain ⟨rows, last, hlayout, htext⟩ := exists_layout text.toList
  obtain rfl : text = String.ofList (joinRows rows ++ last) := by
    rw [htext, String.ofList_toList]
  have hle : line ≤ rows.length := by
    by_contra hlt
    rw [getElem?_starts hlayout, if_neg hlt] at hstart
    cases hstart
  rw [getElem?_starts hlayout, if_pos hle] at hstart
  cases hstart
  have hlt : line < (layoutLines rows last).length := by
    rw [layoutLines, List.length_append, List.length_map]
    exact Nat.lt_succ_of_le hle
  have hi := List.getElem?_eq_getElem hlt
  obtain ⟨_, lineBreak, after, hchars, hbreak⟩ := exists_break_after hlayout hi
  refine ⟨(lineBreak ++ after).drop (first - (layoutLines rows last)[line].length), ?_, ?_⟩
  · rw [lineChars_layout hlayout hi, String.toList_ofList, hchars, List.drop_length_add_append,
      List.append_assoc, List.drop_append]
  · rcases hbreak with ⟨_, rfl, rfl⟩ | ⟨hrow, hmem, hstop⟩
    · simp
    · -- The next line starts behind the break, so that the place is before the end of the break.
      have hbefore := hnext (joinRows (rows.take (line + 1))).length
        (by rw [getElem?_starts hlayout, if_pos (Nat.succ_le_of_lt hrow)])
      rw [hstop] at hbefore
      simp only [List.length_append] at hbefore
      have hinside : first - (layoutLines rows last)[line].length < lineBreak.length := by
        have := length_pos_of_mem_lineBreaks hmem
        omega
      intro c hc
      rw [List.drop_append_of_le_length (Nat.le_of_lt hinside), List.head?_append, List.head?_drop,
        List.getElem?_eq_getElem hinside, Option.some_or] at hc
      cases hc
      exact isLineBreak_of_mem hmem _ (List.getElem_mem hinside)

end Text.LineMap

namespace Editor

open Text (LineMap)

/-- A character of a token: neither white space nor one of the delimiters. -/
def IsTokenChar (c : Char) : Prop :=
  Text.isBlank c = false ∧ c ∉ ['(', ')', '[', ']', '{', '}', ',', ':', ';', '=', '<', '>']

/-- The characters of tokens are those that end none. -/
theorem isTokenChar_iff {c : Char} : IsTokenChar c ↔ endsToken c = false := by
  rw [IsTokenChar, ← delimiters, endsToken, Bool.or_eq_false_iff, List.contains_eq_mem,
    decide_eq_false_iff_not]

/-- The longest part in front of a text that has characters of a token only. -/
structure IsToken (text token : List Char) : Prop where
  begins : token <+: text
  isTokenChar : ∀ c ∈ token, IsTokenChar c
  longest : ∀ other, other <+: text → (∀ c ∈ other, IsTokenChar c) → other.length ≤ token.length

/-- The token in front of a text. -/
def tokenOf (text : List Char) : List Char :=
  text.takeWhile fun c => !endsToken c

/-- What is cut off in front of a text is its token. -/
theorem isToken_tokenOf (text : List Char) : IsToken text (tokenOf text) where
  begins := List.takeWhile_prefix _
  isTokenChar c hc := by simpa [isTokenChar_iff] using List.mem_takeWhile_imp hc
  longest := by
    rintro other ⟨rest, rfl⟩ hother
    rw [tokenOf, List.takeWhile_append_of_pos (by simpa [isTokenChar_iff] using hother),
      List.length_append]
    exact Nat.le_add_right _ _

/-- A token does not go on where a character follows that ends it. -/
theorem tokenOf_append (front : List Char) {back : List Char}
    (hback : ∀ c ∈ back.head?, endsToken c = true) : tokenOf (front ++ back) = tokenOf front := by
  induction front with
  | nil =>
    cases back with
    | nil => rfl
    | cons c back => simp [tokenOf, hback c rfl]
  | cons c front ih =>
    unfold tokenOf at ih ⊢
    rw [List.cons_append, List.takeWhile_cons, List.takeWhile_cons, ih]

/-- Every character that ends a line ends a token. -/
theorem endsToken_of_isLineBreak {c : Char} (h : Text.isLineBreak c = true) :
    endsToken c = true := by
  simp only [Text.isLineBreak, Bool.or_eq_true, beq_iff_eq] at h
  rcases h with ((rfl | rfl) | rfl) | rfl <;> decide

/-- The token at a place of a line is the token of the text at its offset. -/
theorem tokenOf_lineChars {text : String} {line start first : Nat}
    (hstart : (LineMap.ofText text).starts[line]? = some start)
    (hnext : ∀ next, (LineMap.ofText text).starts[line + 1]? = some next → start + first < next) :
    tokenOf (((LineMap.ofText text).lineChars (line + 1)).drop first) =
      tokenOf (text.toList.drop (start + first)) := by
  obtain ⟨back, hdrop, hback⟩ := LineMap.exists_drop_eq hstart hnext
  rw [hdrop, tokenOf_append _ fun c hc => endsToken_of_isLineBreak (hback c hc)]

/-- A range on one line of a text, from an offset on: it covers the token at the offset, or one
character if there is none. -/
structure CoversToken (text : String) (offset line first last : Nat) : Prop where
  start : ∃ start, (LineMap.ofText text).starts[line]? = some start ∧ start + first = offset
  next : ∀ next, (LineMap.ofText text).starts[line + 1]? = some next → offset < next
  lt : first < last
  token : ∀ c, text.toList[offset]? = some c → IsTokenChar c →
    ∃ token, IsToken (text.toList.drop offset) token ∧ last = first + token.length ∧
      (((LineMap.ofText text).lineChars (line + 1)).drop first).take (last - first) = token
  single : (∀ c, text.toList[offset]? = some c → ¬ IsTokenChar c) → last = first + 1

/-- There is no token at an offset exactly if no character of one stands there. -/
theorem tokenOf_drop_eq_nil_iff {text : List Char} {offset : Nat} :
    tokenOf (text.drop offset) = [] ↔ ∀ c, text[offset]? = some c → ¬ IsTokenChar c := by
  rw [← List.head?_drop]
  cases text.drop offset with
  | nil => simp [tokenOf]
  | cons c rest => simp [tokenOf, isTokenChar_iff]

/-- A range that goes to the end of the token on the line of an offset covers the token. -/
theorem coversToken_tokenEnd {text : String} {line start first : Nat}
    (hstart : (LineMap.ofText text).starts[line]? = some start)
    (hnext : ∀ next, (LineMap.ofText text).starts[line + 1]? = some next → start + first < next) :
    CoversToken text (start + first) line first
      (tokenEnd ((LineMap.ofText text).lineChars (line + 1)) first) := by
  have htoken := tokenOf_lineChars hstart hnext
  have hend : tokenEnd ((LineMap.ofText text).lineChars (line + 1)) first =
      first + max 1 (tokenOf (text.toList.drop (start + first))).length := by
    rw [← htoken]
    rfl
  refine ⟨⟨start, hstart, rfl⟩, hnext, lt_tokenEnd _ _, fun c hc hchar => ?_, fun hnone => ?_⟩
  · have hne : tokenOf (text.toList.drop (start + first)) ≠ [] := fun hnil =>
      tokenOf_drop_eq_nil_iff.mp hnil c hc hchar
    have hpos := List.length_pos_iff.mpr hne
    rw [Nat.max_eq_right hpos] at hend
    refine ⟨_, isToken_tokenOf _, hend, ?_⟩
    rw [hend, Nat.add_sub_cancel_left, ← htoken]
    exact (List.prefix_iff_eq_take.mp (isToken_tokenOf _).begins).symm
  · rw [hend, tokenOf_drop_eq_nil_iff.mpr hnone]
    rfl

/-- A diagnostic with a line and a column has the form for editors exactly if the protocol can carry
the line and the end of the token. -/
theorem ofDiagnostic_at_eq_ok_iff (lines : LineMap) {d : Diagnostic} {line first : Nat}
    (hline : d.line = line + 1) (hcolumn : d.column = first + 1) (e : EditorDiagnostic) :
    ofDiagnostic (some lines) d = .ok e ↔
      ((line : Int) ≤ maxCoordinate ∧
        (tokenEnd (lines.lineChars (line + 1)) first : Int) ≤ maxCoordinate) ∧
      e = ⟨⟨line, first⟩, ⟨line, tokenEnd (lines.lineChars (line + 1)) first⟩, fullMessage d,
        d.severity, d.code⟩ := by
  have hzero : max 0 ((line : Int) + 1 - 1) = line := by omega
  have hfirst : ((first : Int) + 1 - 1).toNat = first := by omega
  rw [ofDiagnostic_eq_ok_iff, InRange, hline, hcolumn, hzero, hfirst, Int.add_sub_cancel]

/-- A diagnostic placed at an offset of a text has a range on the line of the offset. It starts at
the offset and covers the token there, which is found on the line alone, or one character if there
is no token. The range can be told to editors exactly if the protocol can carry its coordinates, and
so in every text that is shorter than the largest one. -/
theorem range_covers_token (text : String) (offset : Nat) (hoffset : offset ≤ text.length)
    (fileName message code rule : String) (severity : Severity) (suggestion : Option String) :
    ∃ d line first last,
      Diagnostic.place fileName (.ofText text) offset message code rule severity suggestion =
        .ok d ∧
      CoversToken text offset line first last ∧
      (∀ e, ofDiagnostic (some (.ofText text)) d = .ok e ↔
        ((line : Int) ≤ maxCoordinate ∧ (last : Int) ≤ maxCoordinate) ∧
        e = ⟨⟨line, first⟩, ⟨line, last⟩, fullMessage d, severity, code⟩) ∧
      (text.length < maxCoordinate →
        (line : Int) ≤ maxCoordinate ∧ (last : Int) ≤ maxCoordinate) := by
  obtain ⟨front, start, behind, hcut, hposition⟩ := LineMap.exists_cut hoffset
  obtain ⟨first, rfl⟩ := Nat.exists_eq_add_of_le hcut.start_le
  rw [Nat.add_sub_cancel_left] at hposition
  have hstart : (LineMap.ofText text).starts[front.length]? = some start := by
    simp [hcut.starts_eq]
  let d : Diagnostic := ⟨fileName, (front.length + 1 : Nat), (first + 1 : Nat), message, code, rule,
    severity, (start + first : Nat), suggestion⟩
  have hline : d.line = front.length + 1 := Int.natCast_succ _
  have hcolumn : d.column = first + 1 := Int.natCast_succ _
  have hform := ofDiagnostic_at_eq_ok_iff (.ofText text) hline hcolumn
  refine ⟨d, front.length, first, _, by rw [Diagnostic.place, hposition],
    coversToken_tokenEnd hstart hcut.isPositionOf.lt_next, hform, fun hshort => ?_⟩
  have hrange : InRange (.ofText text) d := inRange_of_position hshort hposition rfl rfl
  exact ((hform _).mp (ofDiagnostic_eq_ok_iff.mpr ⟨hrange, rfl⟩)).1

/-- A text with a token before a break of two characters. -/
def pairedText : String :=
  "let a_b\r\n= 1"

/-- In a text with a break of two characters, the range at a name is the name, and the range between
the two characters of the break is one character on the line that the break ends. -/
theorem range_before_pair :
    4 ≤ pairedText.length ∧ CoversToken pairedText 4 0 4 7 ∧
    8 ≤ pairedText.length ∧ CoversToken pairedText 8 0 8 9 := by
  have hcovers (offset : Nat) (hoffset : offset ≤ pairedText.length) (first last : Int)
      (hplace : Diagnostic.place "a" (.ofText pairedText) offset "" "" "" .error none =
        .ok ⟨"a", 1, first + 1, "", "", "", .error, offset, none⟩)
      (hform : ofDiagnostic (some (.ofText pairedText))
        ⟨"a", 1, first + 1, "", "", "", .error, offset, none⟩ =
          .ok ⟨⟨0, first⟩, ⟨0, last⟩, "", .error, ""⟩) :
      CoversToken pairedText offset 0 first.toNat last.toNat := by
    obtain ⟨d, line, start, stop, hd, hcovers, hrange, _⟩ :=
      range_covers_token pairedText offset hoffset "a" "" "" "" .error none
    rw [hplace] at hd
    cases hd
    obtain ⟨_, he⟩ := (hrange _).mp hform
    simp only [EditorDiagnostic.mk.injEq, Position.mk.injEq] at he
    obtain ⟨⟨hline, rfl⟩, ⟨_, rfl⟩, _⟩ := he
    obtain rfl : line = 0 := Int.ofNat.inj hline.symm
    exact hcovers
  exact ⟨by decide, hcovers 4 (by decide) 4 7 rfl (by decide), by decide,
    hcovers 8 (by decide) 8 9 rfl (by decide)⟩

end Editor

end TreeLint
