import TreeLint.Config.Directive
import TreeLint.Proofs.Text.Blank

/-!
# The spelling of directives

A directive is spelled by two slashes, the keyword, the name of a level and an identifier between
parentheses, with white space at both ends and on both sides of the keyword. A text is read as a
directive exactly when it spells it. On a line the directive begins at the first marker, that is,
with the longest part at the end of the line that begins with the slashes and the keyword.
-/

namespace TreeLint.Directive

open Text (Blanks)

/-- A text that begins with two slashes and, after white space, the keyword. -/
def Marked (text : List Char) : Prop :=
  ∃ blanks rest, Blanks blanks ∧ text = '/' :: '/' :: (blanks ++ (keyword ++ rest))

/-- A text that spells a directive, white space aside. -/
def Spells (text : List Char) (directive : Directive) : Prop :=
  ∃ before inner between after,
    Blanks before ∧ Blanks inner ∧ Blanks between ∧ Blanks after ∧
    directive.identifier.toList ≠ [] ∧ (∀ c ∈ directive.identifier.toList, isIdChar c = true) ∧
    text = before ++ "//".toList ++ inner ++ keyword ++ between ++
      directive.level.label.toList ++ "(".toList ++ directive.identifier.toList ++ ")".toList ++
        after

/-- A marker is dropped exactly from the texts that begin with one. -/
theorem dropMarker?_eq_some_iff {text rest : List Char} :
    dropMarker? text = some rest ↔
      ∃ blanks, Blanks blanks ∧ text = '/' :: '/' :: (blanks ++ (keyword ++ rest)) := by
  have hkeyword : keyword ++ rest = 't' :: ("ypelint:".toList ++ rest) := rfl
  rw [dropMarker?, Option.bind_eq_bind, Option.bind_eq_some_iff]
  simp only [dropText?_eq_some_iff, dropBlanks, hkeyword]
  constructor
  · intro h
    obtain ⟨tail, rfl, htail⟩ := h
    obtain ⟨blanks, hblanks, rfl⟩ := (Text.dropWhile_isBlank_eq_cons_iff (by decide)).mp htail
    exact ⟨blanks, hblanks, rfl⟩
  · intro h
    obtain ⟨blanks, hblanks, rfl⟩ := h
    exact ⟨_, rfl, (Text.dropWhile_isBlank_eq_cons_iff (by decide)).mpr ⟨blanks, hblanks, rfl⟩⟩

/-- A text begins with a marker exactly if one can be dropped. -/
theorem marked_iff {text : List Char} : Marked text ↔ (dropMarker? text).isSome := by
  rw [Option.isSome_iff_exists]
  simp only [dropMarker?_eq_some_iff]
  exact exists_comm

/-- The name of a level is dropped exactly from the texts that begin with it and a parenthesis. -/
theorem dropLevel?_eq_some_iff {text rest : List Char} {level : Level} :
    dropLevel? text = some (level, rest) ↔ text = level.label.toList ++ '(' :: rest := by
  constructor
  · intro h
    obtain ⟨found, _, hfound⟩ := List.exists_of_findSome?_eq_some h
    obtain ⟨tail, htail, hpair⟩ := Option.map_eq_some_iff.mp hfound
    cases hpair
    rw [dropText?_eq_some_iff.mp htail, List.append_assoc, List.singleton_append]
  · intro h
    subst h
    cases level <;> rfl

/-- Dropping white space leaves a text that begins with the name of a level exactly if white space
stands before it. -/
theorem dropBlanks_eq_label_iff {text rest : List Char} {level : Level} :
    dropBlanks text = level.label.toList ++ '(' :: rest ↔
      ∃ blanks, Blanks blanks ∧ text = blanks ++ (level.label.toList ++ '(' :: rest) := by
  cases level <;> exact Text.dropWhile_isBlank_eq_cons_iff (by decide)

/-- An identifier is cut off before a parenthesis exactly if the two stand in front of a text. -/
theorem cut_identifier_iff {text identifier rest : List Char} :
    text.takeWhile isIdChar = identifier ∧ dropText? [')'] (text.dropWhile isIdChar) = some rest ↔
      (∀ c ∈ identifier, isIdChar c = true) ∧ text = identifier ++ ')' :: rest := by
  rw [dropText?_eq_some_iff]
  exact Text.takeWhile_dropWhile_eq_iff (by decide)

/-- A text without white space in front is read as a directive exactly if it spells it. -/
theorem read?_eq_some_iff {text : List Char} {directive : Directive} :
    read? text = some directive ↔
      ∃ inner between after, Blanks inner ∧ Blanks between ∧ Blanks after ∧
        directive.identifier.toList ≠ [] ∧
        (∀ c ∈ directive.identifier.toList, isIdChar c = true) ∧
        text = '/' :: '/' :: (inner ++ (keyword ++ (between ++ (directive.level.label.toList ++
          '(' :: (directive.identifier.toList ++ ')' :: after))))) := by
  constructor
  · intro h
    obtain ⟨afterMarker, hmarker, hread⟩ := Option.bind_eq_some_iff.mp h
    obtain ⟨⟨level, afterLevel⟩, hlevel, htarget⟩ := Option.bind_eq_some_iff.mp hread
    obtain ⟨inner, hinner, rfl⟩ := dropMarker?_eq_some_iff.mp hmarker
    obtain ⟨between, hbetween, rfl⟩ :=
      dropBlanks_eq_label_iff.mp (dropLevel?_eq_some_iff.mp hlevel)
    dsimp only at htarget
    split at htarget
    · cases htarget
    · next hne =>
      obtain ⟨after, hafter, hend⟩ := Option.bind_eq_some_iff.mp htarget
      obtain ⟨hchars, hsplit⟩ := cut_identifier_iff.mp ⟨rfl, hafter⟩
      split at hend
      · next hblank =>
        cases hend
        refine ⟨inner, between, after, hinner, hbetween, List.all_eq_true.mp hblank, ?_, ?_, ?_⟩
        · simpa using hne
        · rwa [String.toList_ofList]
        · rw [String.toList_ofList, ← hsplit]
      · cases hend
  · intro h
    obtain ⟨inner, between, after, hinner, hbetween, hafter, hne, hchars, rfl⟩ := h
    have hmarker (rest : List Char) :
        dropMarker? ('/' :: '/' :: (inner ++ (keyword ++ rest))) = some rest :=
      dropMarker?_eq_some_iff.mpr ⟨inner, hinner, rfl⟩
    have hlevel (rest : List Char) :
        dropLevel? (dropBlanks (between ++ (directive.level.label.toList ++ '(' :: rest))) =
          some (directive.level, rest) :=
      dropLevel?_eq_some_iff.mpr (dropBlanks_eq_label_iff.mpr ⟨between, hbetween, rfl⟩)
    obtain ⟨hidentifier, hrest⟩ := cut_identifier_iff.mpr ⟨hchars, Eq.refl (_ ++ ')' :: after)⟩
    simp only [read?, hmarker, hlevel, hidentifier, hrest, bind, Option.bind, List.isEmpty_iff, hne,
      if_false, List.all_eq_true.mpr hafter, if_true, String.ofList_toList]

/-- A text is parsed as a directive exactly if it spells it. -/
theorem parse_eq_ok_iff {text : List Char} {directive : Directive} :
    parse text = .ok directive ↔ Spells text directive := by
  have hparse : parse text = .ok directive ↔ read? (Text.trim text) = some directive := by
    rw [parse]
    cases read? (Text.trim text) <;> simp
  rw [hparse, read?_eq_some_iff]
  constructor
  · intro h
    obtain ⟨inner, between, last, hinner, hbetween, hlast, hne, hchars, htrim⟩ := h
    obtain ⟨before, after, hbefore, hafter, htext⟩ := Text.exists_blanks_trim text
    refine ⟨before, inner, between, last ++ after, hbefore, hinner, hbetween, ?_, hne, hchars, ?_⟩
    · intro c hc
      exact (List.mem_append.mp hc).elim (hlast c) (hafter c)
    · rw [htext, htrim]
      simp
  · intro h
    obtain ⟨before, inner, between, after, hbefore, hinner, hbetween, hafter, hne, hchars, rfl⟩ := h
    refine ⟨inner, between, [], hinner, hbetween, List.forall_mem_nil _, hne, hchars, ?_⟩
    let front := '/' :: '/' :: (inner ++ (keyword ++ (between ++
      (directive.level.label.toList ++ '(' :: directive.identifier.toList))))
    have hfirst : ∀ c ∈ (front ++ [')']).head?, Text.isBlank c = false := by
      rintro c ⟨⟩
      decide
    have hlast : ∀ c ∈ (front ++ [')']).getLast?, Text.isBlank c = false := by
      rw [List.getLast?_concat]
      rintro c ⟨⟩
      decide
    have htrim := Text.trim_append_append hbefore hafter hfirst hlast
    simpa [front] using htrim

/-- A text that spells no directive is refused with what is left of it by trimming. -/
theorem parse_eq_error_iff {text : List Char} {e : DirectiveError} :
    parse text = .error e ↔ (∀ directive, ¬ Spells text directive) ∧
      e = ⟨String.ofList (Text.trim text)⟩ := by
  simp only [← parse_eq_ok_iff]
  rw [parse]
  cases read? (Text.trim text) with
  | none => simp [eq_comm]
  | some directive => simp

/-- The part of a line from its first marker on: the longest that ends the line and begins with a
marker. -/
def IsMarkedPart (line part : List Char) : Prop :=
  part <:+ line ∧ Marked part ∧ ∀ other, other <:+ line → Marked other → other.length ≤ part.length

/-- A line that begins with a marker is found whole. -/
theorem find?_of_marked {c : Char} {rest : List Char} (h : Marked (c :: rest)) :
    find? (c :: rest) = some (c :: rest) :=
  if_pos (marked_iff.mp h)

/-- On any other line a marker is found behind the first character. -/
theorem find?_of_not_marked {c : Char} {rest : List Char} (h : ¬ Marked (c :: rest)) :
    find? (c :: rest) = find? rest :=
  if_neg (h ∘ marked_iff.mpr)

/-- Nothing is found on a line exactly if nothing that ends it begins with a marker. -/
theorem find?_eq_none_iff {line : List Char} :
    find? line = none ↔ ∀ part, part <:+ line → ¬ Marked part := by
  induction line with
  | nil =>
    refine iff_of_true rfl fun part hpart hmarked => ?_
    obtain ⟨blanks, rest, _, htext⟩ := hmarked
    rw [List.suffix_nil.mp hpart] at htext
    cases htext
  | cons c rest ih =>
    simp only [List.suffix_cons_iff, forall_eq_or_imp]
    by_cases hmarked : Marked (c :: rest)
    · simp [find?_of_marked hmarked, hmarked]
    · simp [find?_of_not_marked hmarked, hmarked, ih]

/-- What is found on a line is its part from the first marker on. -/
theorem find?_eq_some_iff {line part : List Char} :
    find? line = some part ↔ IsMarkedPart line part := by
  induction line with
  | nil =>
    refine iff_of_false (by simp [find?]) fun hpart => ?_
    exact find?_eq_none_iff.mp rfl part hpart.1 hpart.2.1
  | cons c rest ih =>
    by_cases hmarked : Marked (c :: rest)
    · rw [find?_of_marked hmarked, Option.some.injEq]
      constructor
      · intro h
        subst h
        exact ⟨List.suffix_refl _, hmarked, fun other hother _ => hother.length_le⟩
      · intro h
        exact (h.1.eq_of_length_le (h.2.2 _ (List.suffix_refl _) hmarked)).symm
    · have hbehind {other : List Char} (h : Marked other) :
          other <:+ c :: rest ↔ other <:+ rest := by
        rw [List.suffix_cons_iff, or_iff_right]
        rintro rfl
        exact hmarked h
      rw [find?_of_not_marked hmarked, ih, IsMarkedPart, IsMarkedPart]
      constructor
      · intro h
        obtain ⟨hpart, hmark, hlongest⟩ := h
        exact ⟨(hbehind hmark).mpr hpart, hmark,
          fun other hother hmark' => hlongest other ((hbehind hmark').mp hother) hmark'⟩
      · intro h
        obtain ⟨hpart, hmark, hlongest⟩ := h
        exact ⟨(hbehind hmark).mp hpart, hmark,
          fun other hother hmark' => hlongest other ((hbehind hmark').mpr hother) hmark'⟩

/-- A line holds a directive if it spells it from its first marker on. -/
def OnLine (line : List Char) (directive : Directive) : Prop :=
  ∃ part, IsMarkedPart line part ∧ Spells part directive

/-- The directive of a line, if it has a well-formed one. -/
def onLine? (line : List Char) : Option Directive :=
  (find? line).bind fun part => (parse part).toOption

/-- The directive of a line is the one that the line holds. -/
theorem onLine?_eq_some_iff {line : List Char} {directive : Directive} :
    onLine? line = some directive ↔ OnLine line directive := by
  have hparse (part : List Char) :
      (parse part).toOption = some directive ↔ Spells part directive := by
    rw [← parse_eq_ok_iff]
    cases parse part <;> simp [Except.toOption]
  simp only [onLine?, Option.bind_eq_some_iff, find?_eq_some_iff, hparse, OnLine]

end TreeLint.Directive
