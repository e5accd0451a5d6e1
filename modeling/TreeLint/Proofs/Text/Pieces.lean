import TreeLint.Proofs.Rule.Naming
import TreeLint.Proofs.Text.Template

/-!
# Templates put together from pieces

A template can be put together from literal texts, whose braces are doubled, and from places for
arguments that are either all numbered by their order or all by a written number. Such a template is
read back into its pieces at every boundary, whatever the literal texts hold. It is filled by
putting the arguments between the literal texts as they are; braces inside of arguments mean
nothing.

Filling goes from left to right and stops at the first place that cannot be filled: the argument is
missing, or the written number is larger than the largest index.
-/

namespace TreeLint.Text

/-- How the places of a template are numbered: by their order, or by written numbers. -/
inductive Style where
  | automatic
  | manual
deriving DecidableEq

/-- A written number: ASCII digits, perhaps with zeros in front. -/
structure Numeral where
  digits : List Char
  ne_nil : digits ≠ []
  isDigit : ∀ c ∈ digits, isDigit c = true

/-- The number that is written. -/
def Numeral.value (numeral : Numeral) : Nat :=
  Nat.ofDigitChars 10 numeral.digits 0

/-- A piece of a template whose places are numbered in one style. -/
inductive Piece : Style → Type where
  | literal {style : Style} (text : String) : Piece style
  | next : Piece .automatic
  | numbered (numeral : Numeral) : Piece .manual

/-- What a piece asks for: a text as it stands, or the argument with a number. -/
inductive Part where
  | literal (text : String)
  | argument (number : Nat)
deriving DecidableEq

/-- The text of a part. Arguments count from zero. -/
def Part.content (args : List String) : Part → String
  | .literal text => text
  | .argument number => args.getD number ""

variable {style : Style}

namespace Piece

/-- A piece as a template holds it. -/
def write : Piece style → List Char
  | .literal text => doubleBraces text.toList
  | .next => ['{', '}']
  | .numbered numeral => '{' :: (numeral.digits ++ ['}'])

/-- What a piece asks for where the given number is the next one by order. -/
def part (number : Nat) : Piece style → Part
  | .literal text => .literal text
  | .next => .argument number
  | .numbered numeral => .argument numeral.value

/-- The next number by order after a piece. -/
def after (number : Nat) : Piece style → Nat
  | .next => number + 1
  | _ => number

/-- The segments that a piece is read into. -/
def segments : Piece style → List Segment
  | .literal text => text.toList.map .literal
  | .next => [.automatic]
  | .numbered numeral =>
    [if maxIndex < numeral.value then .defect .hugeIndex else .numbered numeral.value]

end Piece

/-- The template that is put together from pieces. -/
def template (pieces : List (Piece style)) : String :=
  String.ofList (pieces.flatMap Piece.write)

/-- What pieces ask for, from left to right, where the given number is the next one by order. -/
def partsFrom (number : Nat) : List (Piece style) → List Part
  | [] => []
  | piece :: rest => piece.part number :: partsFrom (piece.after number) rest

/-- What the pieces of a template ask for. The first place by order asks for the first argument. -/
def parts (pieces : List (Piece style)) : List Part :=
  partsFrom 0 pieces

/-- The literal texts and the arguments of a template, one after the other. -/
def filled (args : List String) (pieces : List (Piece style)) : String :=
  String.join ((parts pieces).map (Part.content args))

/-- Every place of a template has its argument. -/
def InRange (args : List String) (pieces : List (Piece style)) : Prop :=
  ∀ number, .argument number ∈ parts pieces → number < args.length

/-- A template writes a number that is larger than the largest index, and every place before it has
its argument. -/
def TooLarge (args : List String) (pieces : List (Piece style)) : Prop :=
  style = .manual ∧ ∃ before number after, parts pieces = before ++ .argument number :: after ∧
    (∀ earlier, .argument earlier ∈ before → earlier < args.length) ∧ maxIndex < number

/-! ### Reading a template -/

/-- The value of an ASCII digit is its distance from zero. -/
theorem digitValue?_of_isDigit {c : Char} (h : isDigit c = true) :
    digitValue? c = some (c.toNat - '0'.toNat) := by
  have hrange := isDigit_iff.mp h
  have hzeros : digitZeros = 48 :: digitZeros.tail := rfl
  rw [digitValue?, hzeros, List.find?_cons_of_pos]
  · rfl
  · rw [Bool.and_eq_true, decide_eq_true_eq, decide_eq_true_eq]
    omega

/-- ASCII digits are read as the number that they write, on top of what was read before. -/
theorem foldlM_digits {digits : List Char} (h : ∀ c ∈ digits, isDigit c = true) (total : Nat) :
    digits.foldlM (fun total c => (digitValue? c).map (10 * total + ·)) total =
      some (Nat.ofDigitChars 10 digits total) := by
  induction digits generalizing total with
  | nil => rfl
  | cons c digits ih =>
    rw [List.foldlM_cons, digitValue?_of_isDigit (h c List.mem_cons_self)]
    exact ih (fun d hd => h d (List.mem_cons_of_mem c hd)) _

/-- A written number is read as its value. -/
theorem Numeral.readDecimal?_digits (numeral : Numeral) :
    readDecimal? numeral.digits = some numeral.value := by
  obtain ⟨digits, hne, hdigits⟩ := numeral
  cases digits with
  | nil => exact absurd rfl hne
  | cons c digits => exact foldlM_digits hdigits 0

/-- A written number between braces asks for the argument with that number, unless it is too
large. -/
theorem Numeral.fieldSegment_digits (numeral : Numeral) :
    fieldSegment numeral.digits =
      if maxIndex < numeral.value then .defect .hugeIndex else .numbered numeral.value := by
  have hdecimal : ∀ c ∈ numeral.digits, isDecimal c = true := fun c hc =>
    isDecimal_of_isDigit (numeral.isDigit c hc)
  have htake : numeral.digits.takeWhile isDecimal = numeral.digits :=
    List.takeWhile_eq_self_iff.mpr hdecimal
  have hempty : numeral.digits.isEmpty = false := List.isEmpty_eq_false_iff.mpr numeral.ne_nil
  simp only [fieldSegment, htake, hempty, numeral.readDecimal?_digits]
  rfl

/-- No digit is a brace. -/
theorem ne_brace_of_isDigit {c : Char} (h : isDigit c = true) : c ≠ '{' ∧ c ≠ '}' := by
  constructor
  · rintro rfl
    cases h
  · rintro rfl
    cases h

/-- A field goes on to the first closing brace. -/
theorem fieldSegments_digits {digits : List Char} (h : ∀ c ∈ digits, isDigit c = true)
    (field rest : List Char) :
    fieldSegments field (digits ++ '}' :: rest) =
      fieldSegment (field.reverse ++ digits) :: segments rest := by
  induction digits generalizing field with
  | nil => rw [List.nil_append, fieldSegments, List.append_nil]
  | cons c digits ih =>
    obtain ⟨hopen, hclose⟩ := ne_brace_of_isDigit (h c List.mem_cons_self)
    have hstep : fieldSegments field (c :: (digits ++ '}' :: rest)) =
        fieldSegments (c :: field) (digits ++ '}' :: rest) := by
      simp only [fieldSegments]
    rw [List.cons_append, hstep, ih (fun d hd => h d (List.mem_cons_of_mem c hd)),
      List.reverse_cons, List.append_assoc, List.singleton_append]

/-- A number between braces is one field. -/
theorem Numeral.segments_field (numeral : Numeral) (rest : List Char) :
    segments ('{' :: (numeral.digits ++ '}' :: rest)) =
      fieldSegment numeral.digits :: segments rest := by
  have hfield := fieldSegments_digits numeral.isDigit [] rest
  obtain ⟨digits, hne, hdigits⟩ := numeral
  cases digits with
  | nil => exact absurd rfl hne
  | cons c digits =>
    obtain ⟨hopen, _⟩ := ne_brace_of_isDigit (hdigits c List.mem_cons_self)
    simpa [segments, hopen] using hfield

/-- A piece is read back, whatever follows it. -/
theorem Piece.segments_write (piece : Piece style) (rest : List Char) :
    Text.segments (piece.write ++ rest) = piece.segments ++ Text.segments rest := by
  cases piece with
  | literal text => exact segments_doubleBraces text.toList rest
  | next => simp [write, segments, Text.segments, fieldSegments, fieldSegment]
  | numbered numeral =>
    rw [write, segments, List.cons_append, List.append_assoc, List.singleton_append,
      numeral.segments_field, numeral.fieldSegment_digits]
    rfl

/-- A template is read back into its pieces. -/
theorem segments_template (pieces : List (Piece style)) :
    segments (template pieces).toList = pieces.flatMap Piece.segments := by
  rw [template, String.toList_ofList]
  induction pieces with
  | nil => rw [List.flatMap_nil, List.flatMap_nil, segments]
  | cons piece rest ih => rw [List.flatMap_cons, List.flatMap_cons, piece.segments_write, ih]

/-! ### Filling a template -/

/-- Why a part cannot be filled. -/
def Part.refusal? (style : Style) (args : List String) : Part → Option TemplateError
  | .literal _ => none
  | .argument number =>
    if style = .manual ∧ maxIndex < number then some (.malformed .hugeIndex)
    else if number < args.length then none
    else some (.missingArgument number)

/-- The numbering that is in use where the given number is the next one by order. -/
inductive Continues : Style → Nat → Numbering → Prop where
  | start (style : Style) : Continues style 0 .unset
  | automatic (number : Nat) : Continues .automatic number (.automatic number)
  | manual (number : Nat) : Continues .manual number .manual

/-- An argument stands in front of what the rest is filled to, if its number is in range. -/
theorem argument_bind (args : List String) (number : Nat)
    (rest : Except TemplateError (List Char)) :
    (do
      let arg ← argument args number
      return arg ++ (← rest)) =
      if number < args.length then
        rest.map (((Part.argument number).content args).toList ++ ·)
      else .error (.missingArgument number) := by
  rw [argument, Part.content, List.getD_eq_getElem?_getD]
  by_cases h : number < args.length
  · rw [List.getElem?_eq_getElem h, if_pos h]
    cases rest <;> rfl
  · rw [List.getElem?_eq_none (Nat.not_lt.mp h), if_neg h]
    rfl

/-- Filling a piece gives its text, in front of what the rest is filled to, or refuses it. -/
theorem Piece.fillSegments_segments {number : Nat} {numbering : Numbering}
    (h : Continues style number numbering) (args : List String) (piece : Piece style)
    (rest : List Segment) :
    ∃ following, Continues style (piece.after number) following ∧
      fillSegments args numbering (piece.segments ++ rest) =
        match (piece.part number).refusal? style args with
        | some e => .error e
        | none => (fillSegments args following rest).map
            (((piece.part number).content args).toList ++ ·) := by
  cases piece with
  | literal text => exact ⟨numbering, h, fillSegments_literals args numbering text.toList rest⟩
  | next =>
    have hstep : fillSegments args numbering (.automatic :: rest) = (do
        let arg ← argument args number
        return arg ++ (← fillSegments args (.automatic (number + 1)) rest)) := by
      cases h <;> rw [fillSegments]
    refine ⟨.automatic (number + 1), .automatic (number + 1), ?_⟩
    rw [segments, List.singleton_append, hstep, argument_bind]
    by_cases hrange : number < args.length
    · simp [part, Part.refusal?, hrange]
    · simp [part, Part.refusal?, hrange]
  | numbered numeral =>
    refine ⟨.manual, .manual number, ?_⟩
    rw [segments, List.singleton_append]
    by_cases hlarge : maxIndex < numeral.value
    · rw [if_pos hlarge, fillSegments]
      simp [part, Part.refusal?, hlarge]
    · have hstep : fillSegments args numbering (.numbered numeral.value :: rest) = (do
          let arg ← argument args numeral.value
          return arg ++ (← fillSegments args .manual rest)) := by
        cases h <;> rw [fillSegments]
      rw [if_neg hlarge, hstep, argument_bind]
      by_cases hrange : numeral.value < args.length
      · simp [part, Part.refusal?, hlarge, hrange]
      · simp [part, Part.refusal?, hlarge, hrange]

/-- Filling pieces gives the texts of all parts, or refuses the first part that cannot be filled. -/
theorem fillSegments_pieces {number : Nat} {numbering : Numbering}
    (h : Continues style number numbering) (args : List String) (pieces : List (Piece style)) :
    fillSegments args numbering (pieces.flatMap Piece.segments) =
      match (partsFrom number pieces).findSome? (Part.refusal? style args) with
      | some e => .error e
      | none => .ok ((partsFrom number pieces).flatMap fun part => (part.content args).toList) := by
  induction pieces generalizing number numbering with
  | nil => rfl
  | cons piece rest ih =>
    obtain ⟨following, hfollowing, hpiece⟩ :=
      piece.fillSegments_segments h args (rest.flatMap Piece.segments)
    rw [List.flatMap_cons, hpiece, ih hfollowing, partsFrom, List.findSome?_cons,
      List.flatMap_cons]
    cases (piece.part number).refusal? style args with
    | some e => rfl
    | none =>
      cases (partsFrom (piece.after number) rest).findSome? (Part.refusal? style args) <;> rfl

/-- A template is filled with the texts of its parts, or its first part that cannot be filled is
refused. -/
theorem fill_template (args : List String) (pieces : List (Piece style)) :
    fill (template pieces) args =
      match (parts pieces).findSome? (Part.refusal? style args) with
      | some e => .error e
      | none => .ok (filled args pieces) := by
  have hfilled : filled args pieces =
      String.ofList ((parts pieces).flatMap fun part => (part.content args).toList) := by
    rw [filled, ← String.toList_inj, String.toList_join, String.toList_ofList, List.flatMap_map]
  rw [fill, segments_template, fillSegments_pieces (.start style), hfilled, parts]
  cases (partsFrom 0 pieces).findSome? (Part.refusal? style args) <;> rfl

/-- A part that is not refused has its argument. -/
theorem lt_of_refusal?_eq_none {args : List String} {number : Nat}
    (h : Part.refusal? style args (.argument number) = none) : number < args.length := by
  rw [Part.refusal?] at h
  split at h
  · cases h
  · split at h
    · assumption
    · cases h

/-- A template with all arguments in range, and no number too large, is filled. -/
theorem fill_of_inRange {args : List String} {pieces : List (Piece style)}
    (hrange : InRange args pieces) (hlarge : ¬ TooLarge args pieces) :
    fill (template pieces) args = .ok (filled args pieces) := by
  have hnone : (parts pieces).findSome? (Part.refusal? style args) = none := by
    rw [List.findSome?_eq_none_iff]
    intro part hpart
    cases part with
    | literal text => rfl
    | argument number =>
      have hsmall : ¬ (style = .manual ∧ maxIndex < number) := by
        intro h
        obtain ⟨before, after, hparts⟩ := List.append_of_mem hpart
        refine hlarge ⟨h.1, before, number, after, hparts, fun earlier hearlier => ?_, h.2⟩
        exact hrange earlier (hparts ▸ List.mem_append_left _ hearlier)
      rw [Part.refusal?, if_neg hsmall, if_pos (hrange number hpart)]
  rw [fill_template, hnone]

/-- A template is malformed if it writes a number that is too large before any argument is
missing. -/
theorem fill_of_tooLarge {args : List String} {pieces : List (Piece style)}
    (h : TooLarge args pieces) :
    fill (template pieces) args = .error (.malformed .hugeIndex) := by
  obtain ⟨hstyle, before, number, after, hparts, hbefore, hlarge⟩ := h
  have hhuge : Part.refusal? style args (.argument number) = some (.malformed .hugeIndex) :=
    if_pos ⟨hstyle, hlarge⟩
  rw [fill_template, hparts, List.findSome?_append, List.findSome?_cons, hhuge]
  cases hfirst : before.findSome? (Part.refusal? style args) with
  | none => rfl
  | some e =>
    -- A part before it is in range, so that it can be refused for its size only.
    obtain ⟨part, hpart, hrefusal⟩ := List.exists_of_findSome?_eq_some hfirst
    cases part with
    | literal text => cases hrefusal
    | argument earlier =>
      rw [Part.refusal?, if_pos (hbefore earlier hpart)] at hrefusal
      split at hrefusal
      · cases hrefusal
        rfl
      · cases hrefusal

/-- A template with an argument out of range, and no number too large before it, misses that
argument. -/
theorem exists_fill_of_not_inRange {args : List String} {pieces : List (Piece style)}
    (hrange : ¬ InRange args pieces) (hlarge : ¬ TooLarge args pieces) :
    ∃ number, .argument number ∈ parts pieces ∧ args.length ≤ number ∧
      fill (template pieces) args = .error (.missingArgument number) := by
  cases hfirst : (parts pieces).findSome? (Part.refusal? style args) with
  | none =>
    rw [List.findSome?_eq_none_iff] at hfirst
    exact absurd (fun number hnumber => lt_of_refusal?_eq_none (hfirst _ hnumber)) hrange
  | some e =>
    obtain ⟨before, part, after, hparts, hrefusal, hbefore⟩ := List.findSome?_eq_some_iff.mp hfirst
    cases part with
    | literal text => cases hrefusal
    | argument number =>
      rw [Part.refusal?] at hrefusal
      split at hrefusal
      · next hhuge =>
        -- Everything before the first refused part is in range.
        exact absurd ⟨hhuge.1, before, number, after, hparts,
          fun earlier hearlier => lt_of_refusal?_eq_none (hbefore _ hearlier), hhuge.2⟩ hlarge
      · split at hrefusal
        · cases hrefusal
        · next hmissing =>
          cases hrefusal
          refine ⟨number, by simp [hparts], Nat.not_lt.mp hmissing, ?_⟩
          rw [fill_template, hfirst]

end TreeLint.Text
