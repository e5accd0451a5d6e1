import Mathlib.Data.List.TakeWhile
import Mathlib.Data.Prod.Lex
import Mathlib.Data.Set.Card
import TreeLint.Text.Line

/-!
# Positions in a text

Where the line breaks of a text stand is said of its characters alone: a carriage return with a
line feed after it is one break, and every other character that ends a line is one by itself. The
lines of the line map start where the breaks end, in increasing order. An offset inside of the text
therefore has one line, which starts at the offset or before it while the next line starts behind
it, and one column on that line; a later offset has a later position.
-/

namespace TreeLint.Text

/-- A line break stands in a text from one offset up to another. -/
inductive BreakAt (text : List Char) : Nat → Nat → Prop where
  | pair {start : Nat} (hreturn : text[start]? = some '\r')
      (hfeed : text[start + 1]? = some '\n') : BreakAt text start (start + 2)
  | single {start : Nat} {c : Char} (hc : text[start]? = some c) (hbreak : isLineBreak c = true)
      (hreturn : c = '\r' → text[start + 1]? ≠ some '\n')
      (hfeed : c = '\n' → ∀ before, before + 1 = start → text[before]? ≠ some '\r') :
      BreakAt text start (start + 1)

/-- A line break ends at an offset: the character before the offset ends a line, and is not the
carriage return of a pair. -/
def EndsBreak (text : List Char) : Nat → Prop
  | 0 => False
  | last + 1 => ∃ c, text[last]? = some c ∧ isLineBreak c = true ∧
      (c = '\r' → text[last + 1]? ≠ some '\n')

/-- The offsets at which a line break ends are told from the characters around them. -/
theorem exists_breakAt_iff {text : List Char} {stop : Nat} :
    (∃ start, BreakAt text start stop) ↔ EndsBreak text stop := by
  constructor
  · intro h
    obtain ⟨start, hbreak⟩ := h
    cases hbreak with
    | pair _ hfeed => exact ⟨'\n', hfeed, rfl, fun h => absurd h (by decide)⟩
    | single hc hbreak hreturn _ => exact ⟨_, hc, hbreak, hreturn⟩
  · intro h
    cases stop with
    | zero => exact h.elim
    | succ last =>
      obtain ⟨c, hc, hbreak, hreturn⟩ := h
      -- A line feed is the end of a pair if a carriage return stands before it.
      by_cases hpair : c = '\n' ∧ ∃ before, before + 1 = last ∧ text[before]? = some '\r'
      · obtain ⟨rfl, before, rfl, hbefore⟩ := hpair
        exact ⟨before, .pair hbefore hc⟩
      · refine ⟨last, .single hc hbreak hreturn fun hfeed before hlast hbefore => ?_⟩
        exact hpair ⟨hfeed, before, hlast, hbefore⟩

/-- No two breaks end at the same offset. -/
theorem BreakAt.start_unique {text : List Char} {start other stop : Nat}
    (h : BreakAt text start stop) (hother : BreakAt text other stop) : start = other := by
  cases h with
  | pair hreturn hfeed =>
    generalize hstop : start + 2 = stop at hother
    cases hother with
    | pair => omega
    | single hc _ _ hapart =>
      cases Nat.succ.inj hstop
      rw [hfeed] at hc
      exact absurd hreturn (hapart (Option.some.inj hc).symm start rfl)
  | single hc _ _ hapart =>
    generalize hstop : start + 1 = stop at hother
    cases hother with
    | pair hreturn hfeed =>
      cases Nat.succ.inj hstop
      rw [hfeed] at hc
      exact absurd hreturn (hapart (Option.some.inj hc).symm other rfl)
    | single => omega

/-- No break ends inside of another. -/
theorem BreakAt.not_endsBreak {text : List Char} {start stop offset : Nat}
    (h : BreakAt text start stop) (hstart : start < offset) (hstop : offset < stop) :
    ¬ EndsBreak text offset := by
  cases h with
  | pair hreturn hfeed =>
    obtain rfl : offset = start + 1 := by omega
    intro hends
    obtain ⟨c, hc, _, hapart⟩ := hends
    rw [hreturn] at hc
    exact hapart (Option.some.inj hc).symm hfeed
  | single => omega

/-- The lines after the first start where the breaks end. -/
theorem mem_startsAfter_iff {pos start : Nat} {text : List Char} :
    start ∈ startsAfter pos text ↔ ∃ stop, start = pos + stop ∧ EndsBreak text stop := by
  fun_induction startsAfter pos text with
  | case1 =>
    simp only [List.not_mem_nil, false_iff]
    rintro ⟨_ | stop, _, hends⟩
    · exact hends
    · obtain ⟨c, hc, _⟩ := hends
      cases hc
  | case2 pos rest ih =>
    rw [List.mem_cons, ih]
    constructor
    · intro h
      rcases h with rfl | ⟨_ | stop, rfl, hends⟩
      · exact ⟨2, rfl, '\n', rfl, rfl, fun h => absurd h (by decide)⟩
      · exact hends.elim
      · exact ⟨stop + 3, by omega, hends⟩
    · intro h
      obtain ⟨_ | _ | _ | stop, rfl, hends⟩ := h
      · exact hends.elim
      · obtain ⟨c, hc, _, hapart⟩ := hends
        exact absurd rfl (hapart (Option.some.inj hc).symm)
      · exact .inl rfl
      · exact .inr ⟨stop + 1, by omega, hends⟩
  | case3 pos c rest hpair hbreak ih =>
    rw [List.mem_cons, ih]
    constructor
    · intro h
      rcases h with rfl | ⟨_ | stop, rfl, hends⟩
      · refine ⟨1, rfl, c, rfl, hbreak, fun hreturn hfeed => ?_⟩
        cases rest with
        | nil => cases hfeed
        | cons d rest => exact hpair rest hreturn (by rw [Option.some.inj hfeed])
      · exact hends.elim
      · exact ⟨stop + 2, by omega, hends⟩
    · intro h
      obtain ⟨_ | _ | stop, rfl, hends⟩ := h
      · exact hends.elim
      · exact .inl rfl
      · exact .inr ⟨stop + 1, by omega, hends⟩
  | case4 pos c rest hpair hbreak ih =>
    rw [ih]
    constructor
    · intro h
      obtain ⟨_ | stop, rfl, hends⟩ := h
      · exact hends.elim
      · exact ⟨stop + 2, by omega, hends⟩
    · intro h
      obtain ⟨_ | _ | stop, rfl, hends⟩ := h
      · exact hends.elim
      · obtain ⟨d, hd, hends, _⟩ := hends
        cases hd
        exact absurd hends hbreak
      · exact ⟨stop + 1, by omega, hends⟩

/-- Lines start in increasing order. -/
theorem pairwise_startsAfter (pos : Nat) (text : List Char) :
    (startsAfter pos text).Pairwise (· < ·) := by
  fun_induction startsAfter pos text with
  | case1 => exact .nil
  | case2 pos rest ih => exact .cons (fun _ hstart => lt_of_mem_startsAfter hstart) ih
  | case3 pos c rest _ _ ih => exact .cons (fun _ hstart => lt_of_mem_startsAfter hstart) ih
  | case4 pos c rest _ _ ih => exact ih

namespace LineMap

/-- The characters of a line map are those of its text. -/
theorem length_chars_ofText (text : String) : (ofText text).chars.length = text.length :=
  String.length_toList

/-- The lines of a text start in increasing order. -/
theorem pairwise_starts (text : String) : (ofText text).starts.Pairwise (· < ·) :=
  .cons (fun _ hstart => lt_of_mem_startsAfter hstart) (pairwise_startsAfter 0 text.toList)

/-- A line and a column fit an offset: the line is one of the text, the offset lies on it at that
column, and the next line, if there is one, starts behind the offset. -/
structure IsPositionOf (map : LineMap) (offset : Nat) (position : Position) : Prop where
  one_le_line : 1 ≤ position.line
  line_le : position.line ≤ map.lineCount
  one_le_column : 1 ≤ position.column
  offset_eq : ∃ start, map.starts[position.line - 1]? = some start ∧
    start + position.column - 1 = offset
  lt_next : ∀ next, map.starts[position.line]? = some next → offset < next

section Unique

variable {map : LineMap} {offset other : Nat} {p q : Position}

/-- Lines with larger numbers do not start earlier. -/
theorem start_le_of_le (hsorted : map.starts.Pairwise (· < ·)) {i j start next : Nat} (hle : i ≤ j)
    (hi : map.starts[i]? = some start) (hj : map.starts[j]? = some next) : start ≤ next := by
  obtain ⟨hilt, rfl⟩ := List.getElem?_eq_some_iff.mp hi
  obtain ⟨hjlt, rfl⟩ := List.getElem?_eq_some_iff.mp hj
  rcases Nat.eq_or_lt_of_le hle with rfl | hlt
  · exact Nat.le_refl _
  · exact Nat.le_of_lt (List.pairwise_iff_getElem.mp hsorted i j hilt hjlt hlt)

/-- A later offset has no earlier line. -/
theorem IsPositionOf.line_le_line (hsorted : map.starts.Pairwise (· < ·))
    (hp : map.IsPositionOf offset p) (hq : map.IsPositionOf other q) (hle : offset ≤ other) :
    p.line ≤ q.line := by
  by_contra hlt
  obtain ⟨start, hstart, hoffset⟩ := hp.offset_eq
  have hcolumn := hp.one_le_column
  -- The line after that of `q` starts on the line of `p` or before, and so before its offset.
  have hline : q.line < map.starts.length := by
    have := hp.line_le
    unfold lineCount at this
    omega
  have hnext := hq.lt_next _ (List.getElem?_eq_getElem hline)
  have hstart_le := start_le_of_le hsorted (by omega) (List.getElem?_eq_getElem hline) hstart
  omega

/-- On one line, columns and offsets grow alike. -/
theorem IsPositionOf.column_sub (hp : map.IsPositionOf offset p) (hq : map.IsPositionOf other q)
    (hline : p.line = q.line) : p.column + other = q.column + offset := by
  obtain ⟨start, hstart, hoffset⟩ := hp.offset_eq
  obtain ⟨start', hstart', hother⟩ := hq.offset_eq
  have hcolumn := hp.one_le_column
  have hcolumn' := hq.one_le_column
  rw [hline, hstart'] at hstart
  cases hstart
  omega

/-- An offset has at most one position. -/
theorem IsPositionOf.unique (hsorted : map.starts.Pairwise (· < ·))
    (hp : map.IsPositionOf offset p) (hq : map.IsPositionOf offset q) : p = q := by
  have hline := Nat.le_antisymm (hp.line_le_line hsorted hq (Nat.le_refl _))
    (hq.line_le_line hsorted hp (Nat.le_refl _))
  have hcolumn := hp.column_sub hq hline
  cases p
  cases q
  dsimp only at hline hcolumn
  rw [Position.mk.injEq]
  exact ⟨hline, by omega⟩

/-- A later offset has a later position. -/
theorem IsPositionOf.lex_lt (hsorted : map.starts.Pairwise (· < ·))
    (hp : map.IsPositionOf offset p) (hq : map.IsPositionOf other q) (hlt : offset < other) :
    toLex (p.line, p.column) < toLex (q.line, q.column) := by
  rw [Prod.Lex.toLex_lt_toLex]
  rcases Nat.eq_or_lt_of_le (hp.line_le_line hsorted hq (Nat.le_of_lt hlt)) with hline | hline
  · have hcolumn := hp.column_sub hq hline
    exact .inr ⟨hline, by dsimp only; omega⟩
  · exact .inl hline

end Unique

section Offsets

variable {text : String} {offset : Nat}

/-- A line of a text starts at zero or where a break ends. -/
theorem mem_starts_iff {start : Nat} :
    start ∈ (ofText text).starts ↔ start = 0 ∨ EndsBreak text.toList start := by
  rw [ofText, List.mem_cons, mem_startsAfter_iff]
  simp only [Nat.zero_add, exists_eq_left']

/-- The starts of lines up to an offset and those behind it. -/
structure Cut (starts : List Nat) (offset : Nat) (front : List Nat) (start : Nat)
    (behind : List Nat) : Prop where
  starts_eq : starts = front ++ start :: behind
  start_le : start ≤ offset
  lt_of_mem_behind : ∀ next ∈ behind, offset < next

/-- Behind the starts of lines up to an offset stand later ones only. -/
theorem lt_of_mem_dropWhile {starts : List Nat} (hsorted : starts.Pairwise (· < ·)) {next : Nat}
    (h : next ∈ starts.dropWhile (· ≤ offset)) : offset < next := by
  induction starts with
  | nil => cases h
  | cons start rest ih =>
    obtain ⟨hlater, hrest⟩ := List.pairwise_cons.mp hsorted
    by_cases hle : start ≤ offset
    · rw [List.dropWhile_cons_of_pos (by simpa using hle)] at h
      exact ih hrest h
    · rw [List.dropWhile_cons_of_neg (by simpa using hle)] at h
      rcases List.mem_cons.mp h with rfl | hmem
      · exact Nat.not_le.mp hle
      · have := hlater next hmem
        omega

/-- An offset inside of a text is on the last line that starts up to it. -/
theorem exists_cut (h : offset ≤ text.length) :
    ∃ front start behind, Cut (ofText text).starts offset front start behind ∧
      (ofText text).position offset = .ok ⟨front.length + 1, offset - start + 1⟩ := by
  let upTo := (ofText text).starts.takeWhile (· ≤ offset)
  let behind := (ofText text).starts.dropWhile (· ≤ offset)
  have hcut : upTo ++ behind = (ofText text).starts := List.takeWhile_append_dropWhile
  have hsorted := pairwise_starts text
  rcases List.eq_nil_or_concat upTo with hnone | ⟨front, start, hupTo⟩
  · -- The first line starts at zero, so that it is one of those up to the offset.
    have hfirst : upTo = 0 :: (startsAfter 0 text.toList).takeWhile (· ≤ offset) :=
      List.takeWhile_cons_of_pos (by simp)
    rw [hfirst] at hnone
    cases hnone
  · rw [List.concat_eq_append] at hupTo
    have hstart : start ∈ upTo := by
      rw [hupTo]
      exact List.mem_append_right _ List.mem_cons_self
    refine ⟨front, start, behind, ⟨?_, ?_, ?_⟩, ?_⟩
    · rw [← hcut, hupTo, List.append_assoc, List.singleton_append]
    · have hle := List.mem_takeWhile_imp hstart
      exact of_decide_eq_true hle
    · exact fun next hnext => lt_of_mem_dropWhile hsorted hnext
    · have hinside : ¬ ((offset : Int) < 0 ∨ ((ofText text).chars.length : Int) < offset) := by
        rw [length_chars_ofText]
        omega
      rw [position, if_neg hinside, Int.toNat_natCast]
      change Except.ok (Position.mk upTo.length (offset - upTo.getLastD 0 + 1)) = _
      rw [hupTo]
      simp

/-- The position on the last line up to an offset fits the offset. -/
theorem Cut.isPositionOf {map : LineMap} {front behind : List Nat} {start : Nat}
    (h : Cut map.starts offset front start behind) :
    map.IsPositionOf offset ⟨front.length + 1, offset - start + 1⟩ := by
  have hstart := h.start_le
  refine ⟨by simp, ?_, by simp, ⟨start, ?_, ?_⟩, fun next hnext => ?_⟩
  · simp [lineCount, h.starts_eq]
  · simp [h.starts_eq]
  · dsimp only
    omega
  · rw [h.starts_eq, List.getElem?_append_right (by simp)] at hnext
    simp only [Nat.add_sub_cancel_left, List.getElem?_cons_succ] at hnext
    exact h.lt_of_mem_behind next (List.mem_of_getElem? hnext)

/-- A position is found for an offset exactly if it fits the offset. -/
theorem position_eq_ok_iff {p : Position} (h : offset ≤ text.length) :
    (ofText text).position offset = .ok p ↔ (ofText text).IsPositionOf offset p := by
  obtain ⟨front, start, behind, hcut, hposition⟩ := exists_cut h
  rw [hposition, Except.ok.injEq]
  constructor
  · intro hp
    rw [← hp]
    exact hcut.isPositionOf
  · intro hp
    exact hcut.isPositionOf.unique (pairwise_starts text) hp

/-- The starts of lines up to an offset are those in front of the cut and the one at it. -/
theorem Cut.filter_le {starts front behind : List Nat} {start : Nat}
    (h : Cut starts offset front start behind) (hsorted : starts.Pairwise (· < ·)) :
    starts.filter (· ≤ offset) = front ++ [start] := by
  have hstart := h.start_le
  rw [h.starts_eq] at hsorted ⊢
  obtain ⟨_, _, hbefore⟩ := List.pairwise_append.mp hsorted
  have hfront : front.filter (· ≤ offset) = front := by
    rw [List.filter_eq_self]
    intro earlier hearlier
    have := hbefore earlier hearlier start List.mem_cons_self
    exact decide_eq_true (by omega)
  have hbehind : behind.filter (· ≤ offset) = [] := by
    rw [List.filter_eq_nil_iff]
    intro next hnext
    have := h.lt_of_mem_behind next hnext
    simpa using this
  rw [List.filter_append, hfront, List.filter_cons_of_pos (by simpa using hstart), hbehind]

/-- As many breaks end up to an offset as lines start before its own. -/
theorem Cut.ncard_breaks {front behind : List Nat} {start : Nat}
    (h : Cut (ofText text).starts offset front start behind) :
    {b : ℕ × ℕ | BreakAt text.toList b.1 b.2 ∧ b.2 ≤ offset}.ncard = front.length := by
  have hends : Prod.snd '' {b : ℕ × ℕ | BreakAt text.toList b.1 b.2 ∧ b.2 ≤ offset} =
      ((startsAfter 0 text.toList).filter (· ≤ offset)).toFinset := by
    ext stop
    simp only [Set.mem_image, Set.mem_ofPred_eq, List.coe_toFinset, List.mem_filter,
      decide_eq_true_eq, mem_startsAfter_iff, Nat.zero_add, exists_eq_left', Prod.exists,
      ← exists_breakAt_iff]
    constructor
    · rintro ⟨start, _, ⟨hbreak, hle⟩, rfl⟩
      exact ⟨⟨start, hbreak⟩, hle⟩
    · rintro ⟨⟨start, hbreak⟩, hle⟩
      exact ⟨start, stop, ⟨hbreak, hle⟩, rfl⟩
  have hinjective : Set.InjOn Prod.snd
      {b : ℕ × ℕ | BreakAt text.toList b.1 b.2 ∧ b.2 ≤ offset} := by
    rintro ⟨start, stop⟩ ⟨hbreak, _⟩ ⟨other, _⟩ ⟨hother, _⟩ rfl
    exact Prod.ext (hbreak.start_unique hother) rfl
  have hnodup : ((startsAfter 0 text.toList).filter (· ≤ offset)).Nodup :=
    ((pairwise_startsAfter 0 text.toList).imp Nat.ne_of_lt).filter _
  have hlength := congrArg List.length (h.filter_le (pairwise_starts text))
  rw [ofText, List.filter_cons_of_pos (by simp), List.length_cons, List.length_append] at hlength
  rw [← hinjective.ncard_image, hends, Set.ncard_coe_finset,
    List.toFinset_card_of_nodup hnodup]
  exact Nat.succ.inj hlength

/-- The break on which an offset lies ends the line of the offset: the next line starts where the
break ends. -/
theorem Cut.next_start {front behind : List Nat} {start : Nat}
    (h : Cut (ofText text).starts offset front start behind) {first stop : Nat}
    (hbreak : BreakAt text.toList first stop) (hfirst : first ≤ offset) (hstop : offset < stop) :
    (ofText text).starts[front.length + 1]? = some stop := by
  have hsorted := pairwise_starts text
  have hmem : stop ∈ (ofText text).starts :=
    mem_starts_iff.mpr (.inr (exists_breakAt_iff.mp ⟨first, hbreak⟩))
  have hstart := h.start_le
  rw [h.starts_eq] at hsorted hmem
  obtain ⟨_, hfrom, hbefore⟩ := List.pairwise_append.mp hsorted
  rcases List.mem_append.mp hmem with hfront | hmem
  · have := hbefore stop hfront start List.mem_cons_self
    omega
  rcases List.mem_cons.mp hmem with rfl | hmem
  · omega
  cases behind with
  | nil => cases hmem
  | cons next later =>
    have hget : (ofText text).starts[front.length + 1]? = some next := by
      rw [h.starts_eq, List.getElem?_append_right (by simp)]
      simp
    rw [hget]
    rcases List.mem_cons.mp hmem with rfl | hlater
    · rfl
    · -- Otherwise a line would start inside of the break.
      have hnext := h.lt_of_mem_behind next List.mem_cons_self
      have hlt := (List.pairwise_cons.mp (List.pairwise_cons.mp hfrom).2).1 stop hlater
      rcases mem_starts_iff.mp (List.mem_of_getElem? hget) with hzero | hends
      · omega
      · exact absurd hends (hbreak.not_endsBreak (by omega) hlt)

/-- Only an offset inside of a text has a position, and the position fits it. -/
theorem isPositionOf_of_position {offset : Int} {p : Position}
    (h : (ofText text).position offset = .ok p) :
    ∃ n : ℕ, offset = n ∧ (ofText text).IsPositionOf n p := by
  have hinside : ¬ (offset < 0 ∨ ((ofText text).chars.length : Int) < offset) := by
    intro houtside
    rw [position_eq_error_iff.mpr ⟨houtside, rfl⟩] at h
    cases h
  rw [length_chars_ofText, not_or, Int.not_lt, Int.not_lt] at hinside
  obtain ⟨n, rfl⟩ := Int.eq_ofNat_of_zero_le hinside.1
  exact ⟨n, rfl, (position_eq_ok_iff (by omega)).mp h⟩

end Offsets

/-- An offset has no position exactly if it lies outside of the text. Any other has one: the only
line and column that fit it. As many breaks end up to the offset as lines stand before its own, and
a break on which it lies ends its line. Later offsets have later positions, by line and then by
column, and no two offsets have the same. -/
theorem position_of_every_offset (text : String) :
    (∀ offset : Int, (∃ e, (ofText text).position offset = .error e) ↔
      offset < 0 ∨ (text.length : Int) < offset) ∧
    (∀ offset : Nat, offset ≤ text.length →
      ∃ p, (ofText text).position offset = .ok p ∧
        (∀ q, (ofText text).IsPositionOf offset q ↔ q = p) ∧
        p.line - 1 = {b : ℕ × ℕ | BreakAt text.toList b.1 b.2 ∧ b.2 ≤ offset}.ncard ∧
        ∀ start stop, BreakAt text.toList start stop → start ≤ offset → offset < stop →
          (ofText text).starts[p.line]? = some stop) ∧
    ∀ (offset other : Int) (p q : Position), (ofText text).position offset = .ok p →
      (ofText text).position other = .ok q →
      (offset < other → toLex (p.line, p.column) < toLex (q.line, q.column)) ∧
        (p = q → offset = other) := by
  refine ⟨fun offset => ?_, fun offset hinside => ?_, fun offset other p q hp hq => ?_⟩
  · simp only [position_eq_error_iff, exists_and_left, exists_eq, and_true,
      length_chars_ofText]
  · obtain ⟨front, start, behind, hcut, hposition⟩ := exists_cut hinside
    refine ⟨_, hposition, fun q => ?_, hcut.ncard_breaks.symm, fun _ _ => hcut.next_start⟩
    rw [← position_eq_ok_iff hinside, hposition, Except.ok.injEq, eq_comm]
  · obtain ⟨m, rfl, hfits⟩ := isPositionOf_of_position hp
    obtain ⟨n, rfl, hfits'⟩ := isPositionOf_of_position hq
    refine ⟨fun hlt => hfits.lex_lt (pairwise_starts text) hfits' (by omega), fun heq => ?_⟩
    rw [← heq] at hfits'
    have := hfits.column_sub hfits' rfl
    omega

/-- Between the two characters of a pair, an offset is still on the line that the pair ends. -/
theorem position_inside_pair :
    2 ≤ "a\r\nb".length ∧ BreakAt "a\r\nb".toList 1 3 ∧
      ∃ p, (ofText "a\r\nb").position 2 = .ok p ∧ p = ⟨1, 3⟩ ∧
        (ofText "a\r\nb").starts[p.line]? = some 3 := by
  have hbreak : BreakAt "a\r\nb".toList 1 3 := .pair rfl rfl
  obtain ⟨p, hp, _, _, hnext⟩ := (position_of_every_offset "a\r\nb").2.1 2 (by decide)
  refine ⟨by decide, hbreak, p, hp, ?_, hnext 1 3 hbreak (by decide) (by decide)⟩
  have hposition : (ofText "a\r\nb").position 2 = .ok ⟨1, 3⟩ := by rfl
  exact Except.ok.inj (hp.symm.trans hposition)

end LineMap

end TreeLint.Text
