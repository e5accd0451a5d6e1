import Mathlib.Data.List.Basic
import TreeLint.Config.Levels
import TreeLint.Proofs.Text.Position

/-!
# Lines and their breaks

A text is laid out in lines: rows of a line and its break, and a last line without one. The line map
finds these lines again, whatever breaks stand between them. Only one choice of breaks is lost: a
carriage return, an empty line and a line feed are the two characters of a single break. Every text
is laid out in this way, so that cutting it into lines loses nothing, and the numbers and texts of
lines do not depend on the sort of break that ends them.
-/

namespace TreeLint.Text

/-- The texts of line breaks. -/
def lineBreaks : List (List Char) :=
  [['\n'], ['\r', '\n'], ['\r'], ['\u2028'], ['\u2029']]

/-- A text in which no line ends. -/
def IsLine (line : List Char) : Prop :=
  ∀ c ∈ line, isLineBreak c = false

/-- The text of lines with their breaks. -/
def joinRows (rows : List (List Char × List Char)) : List Char :=
  rows.flatMap fun row => row.1 ++ row.2

/-- Lines with their breaks and a last line without one, where no carriage return is followed by an
empty line and its line feed. -/
inductive IsLayout : List (List Char × List Char) → List Char → Prop where
  | last {line : List Char} (hline : IsLine line) : IsLayout [] line
  | row {line lineBreak last : List Char} {rows : List (List Char × List Char)}
      (hline : IsLine line) (hbreak : lineBreak ∈ lineBreaks)
      (hapart : lineBreak = ['\r'] → rows.head? ≠ some ([], ['\n']))
      (hrows : IsLayout rows last) : IsLayout ((line, lineBreak) :: rows) last

/-- The lines of a layout. -/
def layoutLines (rows : List (List Char × List Char)) (last : List Char) : List (List Char) :=
  rows.map Prod.fst ++ [last]

/-- A line break is made of characters that end a line. -/
theorem isLineBreak_of_mem {lineBreak : List Char} (h : lineBreak ∈ lineBreaks) :
    ∀ c ∈ lineBreak, isLineBreak c = true := by
  have hall : ∀ text ∈ lineBreaks, text.all isLineBreak := by decide
  exact List.all_eq_true.mp (hall lineBreak h)

/-- A break that begins with a line feed is the line feed. -/
theorem eq_lineFeed_of_head {lineBreak : List Char} (h : lineBreak ∈ lineBreaks)
    (hhead : lineBreak.head? = some '\n') : lineBreak = ['\n'] := by
  revert lineBreak
  decide

/-- A line break is not empty. -/
theorem length_pos_of_mem_lineBreaks {lineBreak : List Char} (h : lineBreak ∈ lineBreaks) :
    0 < lineBreak.length := by
  revert lineBreak
  decide

section Starts

variable {rows : List (List Char × List Char)} {last : List Char}

/-- No line starts inside of a line. -/
theorem startsAfter_line {line : List Char} (h : IsLine line) (pos : Nat) (rest : List Char) :
    startsAfter pos (line ++ rest) = startsAfter (pos + line.length) rest := by
  induction line generalizing pos with
  | nil => rfl
  | cons c line ih =>
    obtain ⟨hc, hline⟩ := List.forall_mem_cons.mp h
    have hreturn : c ≠ '\r' := by
      rintro rfl
      cases hc
    rw [List.cons_append, startsAfter, hc, if_neg Bool.false_ne_true, ih hline, List.length_cons,
      Nat.add_right_comm, Nat.add_assoc]
    exact fun _ h => absurd h hreturn

/-- A line starts behind a break. -/
theorem startsAfter_lineBreak {lineBreak rest : List Char} (h : lineBreak ∈ lineBreaks)
    (hapart : lineBreak = ['\r'] → rest.head? ≠ some '\n') (pos : Nat) :
    startsAfter pos (lineBreak ++ rest) =
      (pos + lineBreak.length) :: startsAfter (pos + lineBreak.length) rest := by
  simp only [lineBreaks, List.mem_cons, List.not_mem_nil, or_false] at h
  rcases h with rfl | rfl | rfl | rfl | rfl
  · rfl
  · rfl
  · cases rest with
    | nil => rfl
    | cons c rest =>
      have hc : c ≠ '\n' := fun heq => hapart rfl (congrArg some heq)
      rw [List.singleton_append, startsAfter, if_pos (by decide)]
      · rfl
      · exact fun _ _ h => hc (List.cons.inj h).1
  · rfl
  · rfl

/-- A layout begins with a line feed only where its first line is empty and ends with one. -/
theorem IsLayout.head?_of_lineFeed (h : IsLayout rows last)
    (hhead : (joinRows rows ++ last).head? = some '\n') : rows.head? = some ([], ['\n']) := by
  have hnot {line : List Char} (hline : IsLine line) : line.head? ≠ some '\n' := by
    intro hfeed
    cases hline '\n' (List.mem_of_mem_head? hfeed)
  cases h with
  | last hline => exact absurd hhead (hnot hline)
  | @row line lineBreak _ rows hline hbreak _ _ =>
    cases line with
    | cons c line =>
      have hfirst : (c :: line).head? = some '\n' := hhead
      exact absurd hfirst (hnot hline)
    | nil =>
      have hfirst : lineBreak.head? = some '\n' := by
        cases lineBreak with
        | nil => exact absurd (length_pos_of_mem_lineBreaks hbreak) (Nat.lt_irrefl 0)
        | cons c lineBreak => exact hhead
      rw [eq_lineFeed_of_head hbreak hfirst]
      rfl

/-- The rows of a layout hold a line and a break. -/
theorem IsLayout.row_of_mem (h : IsLayout rows last) {row : List Char × List Char}
    (hrow : row ∈ rows) : IsLine row.1 ∧ row.2 ∈ lineBreaks := by
  induction h with
  | last => cases hrow
  | row hline hbreak _ _ ih =>
    rcases List.mem_cons.mp hrow with rfl | hrow
    · exact ⟨hline, hbreak⟩
    · exact ih hrow

/-- The last line of a layout is a line. -/
theorem IsLayout.isLine_last (h : IsLayout rows last) : IsLine last := by
  induction h with
  | last hline => exact hline
  | row _ _ _ _ ih => exact ih

/-- Each line of a layout but the first starts where the rows before it end. -/
theorem IsLayout.startsAfter_eq (h : IsLayout rows last) (pos : Nat) :
    startsAfter pos (joinRows rows ++ last) =
      (List.range rows.length).map fun i => pos + (joinRows (rows.take (i + 1))).length := by
  induction h generalizing pos with
  | last hline =>
    have hstarts := startsAfter_line hline pos []
    rw [List.append_nil] at hstarts
    exact hstarts
  | @row line lineBreak last rows hline hbreak hapart hrows ih =>
    have hnext : lineBreak = ['\r'] → (joinRows rows ++ last).head? ≠ some '\n' :=
      fun hreturn hfeed => hapart hreturn (hrows.head?_of_lineFeed hfeed)
    rw [joinRows, List.flatMap_cons, ← joinRows, List.append_assoc, List.append_assoc,
      startsAfter_line hline, startsAfter_lineBreak hbreak hnext, ih, List.length_cons,
      List.range_succ_eq_map, List.map_cons, List.map_map]
    congr 1
    · simp [joinRows, Nat.add_assoc]
    · apply List.map_congr_left
      intro i _
      simp [joinRows, Nat.add_assoc]

/-- The lines of a layout start where the rows before them end. -/
theorem IsLayout.starts_eq (h : IsLayout rows last) :
    (LineMap.ofText (String.ofList (joinRows rows ++ last))).starts =
      (List.range (rows.length + 1)).map fun i => (joinRows (rows.take i)).length := by
  rw [LineMap.ofText, String.toList_ofList, h.startsAfter_eq, List.range_succ_eq_map, List.map_cons,
    List.map_map]
  simp only [Nat.zero_add]
  rfl

/-- Every text is laid out in lines. -/
theorem exists_layout (text : List Char) :
    ∃ rows last, IsLayout rows last ∧ joinRows rows ++ last = text := by
  -- The cases are those of the search for line starts.
  fun_induction startsAfter 0 text with
  | case1 => exact ⟨[], [], .last (by simp [IsLine]), rfl⟩
  | case2 pos rest ih =>
    obtain ⟨rows, last, hlayout, rfl⟩ := ih
    exact ⟨([], ['\r', '\n']) :: rows, last,
      .row (by simp [IsLine]) (by decide) (fun h => absurd h (by decide)) hlayout, rfl⟩
  | case3 pos c rest hpair hbreak ih =>
    obtain ⟨rows, last, hlayout, rfl⟩ := ih
    refine ⟨([], [c]) :: rows, last, .row (by simp [IsLine]) ?_ (fun hreturn hnext => ?_) hlayout,
      rfl⟩
    · simpa [isLineBreak, lineBreaks, or_assoc] using hbreak
    · obtain ⟨tail, rfl⟩ : ∃ tail, rows = ([], ['\n']) :: tail := by
        cases rows with
        | nil => cases hnext
        | cons row tail => exact ⟨tail, by rw [Option.some.inj hnext]⟩
      exact hpair _ (List.cons.inj hreturn).1 rfl
  | case4 pos c rest hpair hbreak ih =>
    obtain ⟨rows, last, hlayout, rfl⟩ := ih
    have hcons {line : List Char} (hline : IsLine line) : IsLine (c :: line) :=
      List.forall_mem_cons.mpr ⟨by simpa using hbreak, hline⟩
    cases hlayout with
    | last hline => exact ⟨[], c :: last, .last (hcons hline), rfl⟩
    | row hline hbreak hapart hrows => exact ⟨_, last, .row (hcons hline) hbreak hapart hrows, rfl⟩

end Starts

namespace LineMap

/-- The line map has the given lines, and no others. -/
def HasLines (map : LineMap) (lines : List (List Char)) : Prop :=
  map.lineCount = lines.length ∧
    ∀ (i : Nat) (line : List Char), lines[i]? = some line →
      map.lineText (i + 1) = String.ofList line

/-- Cutting off the characters that end a line leaves the line before its break. -/
theorem cut_lineBreak {line lineBreak : List Char} (hline : IsLine line)
    (hbreak : ∀ c ∈ lineBreak, isLineBreak c = true) :
    ((line ++ lineBreak).reverse.dropWhile isLineBreak).reverse = line := by
  rw [List.reverse_append,
    List.dropWhile_append_of_pos fun c hc => hbreak c (List.mem_reverse.mp hc),
    List.dropWhile_eq_self_iff.mpr, List.reverse_reverse]
  intro hpos hlast
  rw [hline _ (List.mem_reverse.mp (List.getElem_mem hpos))] at hlast
  cases hlast

/-- The characters of a line are found between the start of the line and its break. -/
theorem lineChars_eq {map : LineMap} {i : Nat} {before line lineBreak after : List Char}
    (hchars : map.chars = before ++ (line ++ lineBreak ++ after))
    (hstart : map.starts[i]? = some before.length)
    (hstop : map.starts[i + 1]?.getD map.chars.length = (before ++ (line ++ lineBreak)).length)
    (hline : IsLine line) (hbreak : ∀ c ∈ lineBreak, isLineBreak c = true) :
    map.lineChars (i + 1) = line := by
  have hnumber : ¬ ((i : Int) + 1 < 1) := by omega
  have hindex : ((i : Int) + 1).toNat - 1 = i := by omega
  simp only [lineChars, if_neg hnumber, hindex, hstart]
  rw [hstop, hchars, List.drop_left, List.length_append, Nat.add_sub_cancel_left, List.take_left]
  exact cut_lineBreak hline hbreak

section Layouts

variable {rows : List (List Char × List Char)} {last line : List Char} {i : Nat}

/-- A line of a layout is the line of a row, or the last one. -/
theorem line_cases (hi : (layoutLines rows last)[i]? = some line) :
    (∃ lineBreak, rows[i]? = some (line, lineBreak)) ∨ i = rows.length ∧ line = last := by
  rcases Nat.lt_or_ge i rows.length with hlt | hge
  · rw [layoutLines, List.getElem?_append_left (by simpa using hlt), List.getElem?_map,
      Option.map_eq_some_iff] at hi
    obtain ⟨⟨_, lineBreak⟩, hrow, rfl⟩ := hi
    exact .inl ⟨lineBreak, hrow⟩
  · rw [layoutLines, List.getElem?_append_right (by simpa using hge), List.length_map,
      List.getElem?_singleton] at hi
    split at hi
    · exact .inr ⟨by omega, (Option.some.inj hi).symm⟩
    · cases hi

/-- From one of its lines on, a layout is the line, its break if it has one, and what follows; the
next line starts behind the break. -/
theorem exists_break_after (h : IsLayout rows last)
    (hi : (layoutLines rows last)[i]? = some line) :
    IsLine line ∧ ∃ lineBreak after,
      joinRows rows ++ last = joinRows (rows.take i) ++ (line ++ lineBreak ++ after) ∧
      ((i = rows.length ∧ lineBreak = [] ∧ after = []) ∨
        (i < rows.length ∧ lineBreak ∈ lineBreaks ∧
          joinRows (rows.take (i + 1)) = joinRows (rows.take i) ++ (line ++ lineBreak))) := by
  rcases line_cases hi with ⟨lineBreak, hrow⟩ | ⟨rfl, rfl⟩
  · obtain ⟨hline, hbreak⟩ := h.row_of_mem (List.mem_of_getElem? hrow)
    have hnext : joinRows (rows.take (i + 1)) = joinRows (rows.take i) ++ (line ++ lineBreak) := by
      rw [List.take_add_one, hrow]
      simp [joinRows]
    refine ⟨hline, lineBreak, joinRows (rows.drop (i + 1)) ++ last, ?_,
      .inr ⟨(List.getElem?_eq_some_iff.mp hrow).1, hbreak, hnext⟩⟩
    rw [← List.append_assoc, ← hnext, ← List.append_assoc, joinRows, joinRows, joinRows,
      ← List.flatMap_append, List.take_append_drop]
  · refine ⟨h.isLine_last, [], [], ?_, .inl ⟨rfl, rfl, rfl⟩⟩
    rw [List.take_length, List.append_nil, List.append_nil]

/-- The line map of a layout finds the start of each of its lines. -/
theorem getElem?_starts (h : IsLayout rows last) :
    (ofText (String.ofList (joinRows rows ++ last))).starts[i]? =
      if i ≤ rows.length then some (joinRows (rows.take i)).length else none := by
  rw [h.starts_eq, List.getElem?_map]
  split
  · next hle => rw [List.getElem?_range (Nat.lt_succ_of_le hle), Option.map_some]
  · next hle => rw [List.getElem?_eq_none (by simpa using hle), Option.map_none]

/-- The line map of a layout finds the characters of each of its lines. -/
theorem lineChars_layout (h : IsLayout rows last)
    (hi : (layoutLines rows last)[i]? = some line) :
    (ofText (String.ofList (joinRows rows ++ last))).lineChars (i + 1) = line := by
  obtain ⟨hline, lineBreak, after, hchars, hbreak⟩ := exists_break_after h hi
  have hmap : (ofText (String.ofList (joinRows rows ++ last))).chars = joinRows rows ++ last :=
    String.toList_ofList
  have hstart := getElem?_starts h (i := i)
  have hstop := getElem?_starts h (i := i + 1)
  rw [← hmap] at hchars
  rcases hbreak with ⟨rfl, rfl, rfl⟩ | ⟨hlt, hmem, hnext⟩
  · rw [if_pos (Nat.le_refl _)] at hstart
    rw [if_neg (Nat.not_succ_le_self _)] at hstop
    refine lineChars_eq hchars hstart ?_ hline (by simp)
    rw [hstop, hchars, List.append_nil]
    rfl
  · rw [if_pos (Nat.le_of_lt hlt)] at hstart
    rw [if_pos (Nat.succ_le_of_lt hlt), hnext] at hstop
    refine lineChars_eq hchars hstart ?_ hline (isLineBreak_of_mem hmem)
    rw [hstop]
    rfl

/-- The characters of a line are numbered by the line and by their place on it. -/
theorem position_layout (h : IsLayout rows last)
    (hi : (layoutLines rows last)[i]? = some line) {place : Nat} (hplace : place ≤ line.length) :
    (ofText (String.ofList (joinRows rows ++ last))).position
      ((joinRows (rows.take i)).length + place : Nat) = .ok ⟨i + 1, place + 1⟩ := by
  obtain ⟨_, lineBreak, after, hchars, hbreak⟩ := exists_break_after h hi
  have hle : i ≤ rows.length := by
    rcases hbreak with ⟨rfl, _⟩ | ⟨hlt, _⟩
    · exact Nat.le_refl _
    · exact Nat.le_of_lt hlt
  have hinside : (joinRows (rows.take i)).length + place ≤
      (String.ofList (joinRows rows ++ last)).length := by
    rw [String.length_ofList, hchars]
    simp only [List.length_append]
    omega
  rw [position_eq_ok_iff hinside]
  refine ⟨by simp, ?_, by simp, ⟨(joinRows (rows.take i)).length, ?_, by dsimp only; omega⟩,
    fun next hnext => ?_⟩
  · rw [lineCount, h.starts_eq]
    simpa using hle
  · dsimp only
    rw [Nat.add_sub_cancel, getElem?_starts h, if_pos hle]
  · -- The next line starts behind a break, which is not empty.
    rw [getElem?_starts h] at hnext
    rcases hbreak with ⟨rfl, _⟩ | ⟨hlt, hmem, hrow⟩
    · rw [if_neg (Nat.not_succ_le_self _)] at hnext
      cases hnext
    · rw [if_pos (Nat.succ_le_of_lt hlt), hrow] at hnext
      cases hnext
      have := length_pos_of_mem_lineBreaks hmem
      simp only [List.length_append]
      omega

/-- The line map of a layout has one line for each of the lines. -/
theorem lineCount_layout (h : IsLayout rows last) :
    (ofText (String.ofList (joinRows rows ++ last))).lineCount =
      (layoutLines rows last).length := by
  rw [lineCount, h.starts_eq]
  simp [layoutLines]

/-- The line map of a layout has its lines. -/
theorem hasLines_layout (h : IsLayout rows last) :
    (ofText (String.ofList (joinRows rows ++ last))).HasLines (layoutLines rows last) :=
  ⟨lineCount_layout h, fun _ _ hi => congrArg String.ofList (lineChars_layout h hi)⟩

/-- The numbered lines of a layout are its lines, numbered from one. -/
theorem numberedLines_layout (h : IsLayout rows last) :
    (ofText (String.ofList (joinRows rows ++ last))).numberedLines =
      (layoutLines rows last).mapIdx fun i line => (i + 1, line) := by
  apply List.ext_getElem?
  intro i
  rw [List.getElem?_mapIdx, numberedLines, List.getElem?_map, lineCount_layout h]
  rcases Nat.lt_or_ge i (layoutLines rows last).length with hlt | hge
  · have hi := List.getElem?_eq_getElem hlt
    rw [List.getElem?_range hlt, hi, Option.map_some, Option.map_some, lineChars_layout h hi]
  · rw [List.getElem?_eq_none (by simpa using hge), List.getElem?_eq_none hge]
    rfl

end Layouts

/-- Cutting a text into lines loses nothing: the lines start at zero and then in increasing order
up to the end of the text, and the text is the lines of its line map with a break after each but the
last. And lines that are joined by breaks are found again, with their numbers and the places of
their characters, unless a carriage return is followed by an empty line and a line feed. What the
directives of the lines do is therefore the same with all breaks. -/
theorem lines_split_and_join :
    (∀ text : String,
      (ofText text).starts.head? = some 0 ∧ (ofText text).starts.Pairwise (· < ·) ∧
      (∀ start ∈ (ofText text).starts, start ≤ text.length) ∧
      ∃ rows last, IsLayout rows last ∧ text.toList = joinRows rows ++ last ∧
        (ofText text).HasLines (layoutLines rows last)) ∧
    (∀ rows last, IsLayout rows last →
      (ofText (String.ofList (joinRows rows ++ last))).HasLines (layoutLines rows last) ∧
      ∀ i line place, (layoutLines rows last)[i]? = some line → place ≤ line.length →
        (ofText (String.ofList (joinRows rows ++ last))).position
          ((joinRows (rows.take i)).length + place : Nat) = .ok ⟨i + 1, place + 1⟩) ∧
    ∀ rows others last, IsLayout rows last → IsLayout others last →
      rows.map Prod.fst = others.map Prod.fst →
      ∀ (config : Configuration) (registry : Option Registry),
        config.withDirectives (String.ofList (joinRows rows ++ last)) registry =
          config.withDirectives (String.ofList (joinRows others ++ last)) registry := by
  refine ⟨fun text => ⟨rfl, pairwise_starts text, fun start hstart => ?_, ?_⟩,
    fun rows last h =>
      ⟨hasLines_layout h, fun i line place hi hplace => position_layout h hi hplace⟩,
    fun rows others last h hothers hlines config registry => ?_⟩
  · rcases List.mem_cons.mp hstart with rfl | hstart
    · exact Nat.zero_le _
    · have hle := le_of_mem_startsAfter hstart
      rwa [Nat.zero_add, String.length_toList] at hle
  · obtain ⟨rows, last, hlayout, htext⟩ := exists_layout text.toList
    have hlines := hasLines_layout hlayout
    rw [htext, String.ofList_toList] at hlines
    exact ⟨rows, last, hlayout, htext.symm, hlines⟩
  · rw [Configuration.withDirectives, Configuration.withDirectives, numberedLines_layout h,
      numberedLines_layout hothers, layoutLines, layoutLines, hlines]

/-- Rows with three sorts of breaks, where an empty line follows a carriage return. -/
def mixedRows : List (List Char × List Char) :=
  [(['a'], ['\r']), ([], ['\r', '\n']), (['b'], ['\u2028'])]

/-- Lines with breaks of several sorts are found again: the carriage return before the empty line
does not join the break of that line. -/
theorem hasLines_mixedRows :
    IsLayout mixedRows [] ∧ (ofText "a\r\r\nb\u2028").HasLines [['a'], [], ['b'], []] := by
  have hlayout : IsLayout mixedRows [] := by
    refine .row ?_ (by decide) (by decide) (.row ?_ (by decide) (by decide)
      (.row ?_ (by decide) (by decide) (.last ?_))) <;> simp [IsLine, isLineBreak]
  exact ⟨hlayout, (lines_split_and_join.2.1 mixedRows [] hlayout).1⟩

end LineMap

end TreeLint.Text
