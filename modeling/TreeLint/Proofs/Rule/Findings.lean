import TreeLint.Proofs.Text.Pieces
import TreeLint.Rule.Basic

/-!
# Findings from templates

The finding of a rule holds its message and its suggestion, both filled with the same arguments. For
templates that are put together from pieces, both hold the literal texts and the arguments as they
are. An argument out of range fails the finding if the message asks for it, and leaves the
suggestion as it is written if only the suggestion does. A written number above the largest index is
a defect of the template and fails the finding in both places, unless an argument is missing before
it.
-/

namespace TreeLint.RuleInfo

open Text (Style Piece template filled InRange TooLarge fill)

variable {style hintStyle : Style} {args : List String}

/-- The suggestion of a finding: filled if all its arguments are in range, else as written. -/
def Suggests (args : List String) (hint? : Option (List (Piece style)))
    (suggestion : Option String) : Prop :=
  match hint? with
  | none => suggestion = none
  | some hint => (InRange args hint → suggestion = some (filled args hint)) ∧
      (¬ InRange args hint → suggestion = some (template hint))

/-- A finding has one suggestion. -/
theorem Suggests.unique {hint? : Option (List (Piece style))} {suggestion other : Option String}
    (h : Suggests args hint? suggestion) (hother : Suggests args hint? other) :
    suggestion = other := by
  cases hint? with
  | none => exact h.trans hother.symm
  | some hint =>
    by_cases hrange : InRange args hint
    · exact (h.1 hrange).trans (hother.1 hrange).symm
    · exact (h.2 hrange).trans (hother.2 hrange).symm

/-- An empty suggestion would be filled to itself. -/
theorem fillSuggestion_some (args : List String) (text : String) :
    fillSuggestion args (some text) =
      match fill text args with
      | .ok content => .ok (some content)
      | .error (.malformed defect) => .error (.malformed defect)
      | .error _ => .ok (some text) := by
  rw [fillSuggestion]
  split
  · next hempty =>
    obtain rfl : text = "" := String.isEmpty_iff.mp hempty
    have hfill : fill "" args = .ok "" := by
      simp [fill, Text.segments, Text.fillSegments]
    rw [hfill]
  · rfl

/-- A suggestion is filled or left as it is written, unless it writes a number that is too large. -/
theorem exists_fillSuggestion {hint? : Option (List (Piece style))}
    (hlarge : ∀ hint ∈ hint?, ¬ TooLarge args hint) :
    ∃ suggestion, Suggests args hint? suggestion ∧
      fillSuggestion args (hint?.map template) = .ok suggestion := by
  cases hint? with
  | none => exact ⟨none, rfl, rfl⟩
  | some hint =>
    rw [Option.map_some, fillSuggestion_some]
    by_cases hrange : InRange args hint
    · rw [Text.fill_of_inRange hrange (hlarge hint rfl)]
      exact ⟨_, ⟨fun _ => rfl, fun h => absurd hrange h⟩, rfl⟩
    · obtain ⟨number, _, _, hfill⟩ := Text.exists_fill_of_not_inRange hrange (hlarge hint rfl)
      rw [hfill]
      exact ⟨_, ⟨fun h => absurd h hrange, fun _ => rfl⟩, rfl⟩

section Finding

variable {info : RuleInfo} {pieces : List (Piece style)} {hint? : Option (List (Piece hintStyle))}

/-- With arguments, the message is filled before the suggestion. -/
theorem finding_of_ne_nil (hargs : args ≠ []) :
    info.finding args = (do
      let message ← fill info.message args
      let suggestion ← fillSuggestion args info.suggestion
      return ⟨message, suggestion⟩) := by
  rw [finding, if_neg]
  simpa using hargs

/-- A message that writes a number too large fails the finding. -/
theorem finding_of_tooLarge (hargs : args ≠ []) (hmessage : info.message = template pieces)
    (h : TooLarge args pieces) : info.finding args = .error (.malformed .hugeIndex) := by
  rw [finding_of_ne_nil hargs, hmessage, Text.fill_of_tooLarge h]
  rfl

/-- A message with an argument out of range fails the finding. -/
theorem exists_finding_of_not_inRange (hargs : args ≠ [])
    (hmessage : info.message = template pieces) (hrange : ¬ InRange args pieces)
    (hlarge : ¬ TooLarge args pieces) :
    ∃ number, info.finding args = .error (.missingArgument number) := by
  obtain ⟨number, _, _, hfill⟩ := Text.exists_fill_of_not_inRange hrange hlarge
  rw [finding_of_ne_nil hargs, hmessage, hfill]
  exact ⟨number, rfl⟩

/-- A suggestion that writes a number too large fails the finding. -/
theorem finding_of_hint_tooLarge (hargs : args ≠ []) (hmessage : info.message = template pieces)
    (hsuggestion : info.suggestion = hint?.map template) (hrange : InRange args pieces)
    (hlarge : ¬ TooLarge args pieces) {hint : List (Piece hintStyle)} (hhint : hint ∈ hint?)
    (h : TooLarge args hint) : info.finding args = .error (.malformed .hugeIndex) := by
  cases hhint
  rw [finding_of_ne_nil hargs, hmessage, hsuggestion, Text.fill_of_inRange hrange hlarge,
    Option.map_some, fillSuggestion_some, Text.fill_of_tooLarge h]
  rfl

/-- With all arguments in range, and no number too large, there is a finding. -/
theorem exists_finding_of_inRange (hargs : args ≠ []) (hmessage : info.message = template pieces)
    (hsuggestion : info.suggestion = hint?.map template) (hrange : InRange args pieces)
    (hlarge : ¬ TooLarge args pieces) (hhints : ∀ hint ∈ hint?, ¬ TooLarge args hint) :
    ∃ suggestion, Suggests args hint? suggestion ∧
      info.finding args = .ok ⟨filled args pieces, suggestion⟩ := by
  obtain ⟨suggestion, hsuggests, hfill⟩ := exists_fillSuggestion hhints
  refine ⟨suggestion, hsuggests, ?_⟩
  rw [finding_of_ne_nil hargs, hmessage, hsuggestion, Text.fill_of_inRange hrange hlarge, hfill]
  rfl

end Finding

/-- With arguments, a rule whose templates are put together from pieces gives a finding exactly if
the arguments of the message are all in range and no number is too large. The message is then made
of the literal texts and the arguments as they are, and so is the suggestion, which is left as
written where an argument of its own is out of range. An argument of the message out of range is an
index error, and a number too large, in the message or else in the suggestion, is a value error. -/
theorem finding_substitutes_verbatim (info : RuleInfo) {style hintStyle : Style}
    (pieces : List (Piece style)) (hint? : Option (List (Piece hintStyle))) (args : List String)
    (hargs : args ≠ []) (hmessage : info.message = template pieces)
    (hsuggestion : info.suggestion = hint?.map template) :
    (∀ finding, info.finding args = .ok finding ↔
      InRange args pieces ∧ ¬ TooLarge args pieces ∧ (∀ hint ∈ hint?, ¬ TooLarge args hint) ∧
        finding.message = filled args pieces ∧ Suggests args hint? finding.suggestion) ∧
    ((∃ e, info.finding args = .error e ∧ (Fault.ofTemplate e).sort = "IndexError") ↔
      ¬ InRange args pieces ∧ ¬ TooLarge args pieces) ∧
    ((∃ e, info.finding args = .error e ∧ (Fault.ofTemplate e).sort = "ValueError") ↔
      TooLarge args pieces ∨ InRange args pieces ∧ ∃ hint ∈ hint?, TooLarge args hint) := by
  by_cases hlarge : TooLarge args pieces
  · have hfinding := finding_of_tooLarge hargs hmessage hlarge
    simp [hfinding, hlarge, Fault.ofTemplate]
  by_cases hrange : InRange args pieces
  · by_cases hhints : ∃ hint ∈ hint?, TooLarge args hint
    · obtain ⟨hint, hhint, hhuge⟩ := hhints
      have hfinding :=
        finding_of_hint_tooLarge hargs hmessage hsuggestion hrange hlarge hhint hhuge
      refine ⟨fun finding => ⟨fun h => ?_, fun h => absurd hhuge (h.2.2.1 hint hhint)⟩, ?_, ?_⟩
      · rw [hfinding] at h
        cases h
      · simp [hfinding, hrange, Fault.ofTemplate]
      · exact ⟨fun _ => .inr ⟨hrange, hint, hhint, hhuge⟩, fun _ => ⟨_, hfinding, rfl⟩⟩
    · have hsmall : ∀ hint ∈ hint?, ¬ TooLarge args hint := fun hint hhint hhuge =>
        hhints ⟨hint, hhint, hhuge⟩
      obtain ⟨suggestion, hsuggests, hfinding⟩ :=
        exists_finding_of_inRange hargs hmessage hsuggestion hrange hlarge hsmall
      refine ⟨fun finding => ?_, by simp [hfinding, hrange],
        by simpa [hfinding, hlarge, hrange] using hsmall⟩
      rw [hfinding, Except.ok.injEq]
      constructor
      · intro h
        subst h
        exact ⟨hrange, hlarge, hsmall, rfl, hsuggests⟩
      · intro h
        obtain ⟨_, _, _, htext, hhint⟩ := h
        obtain ⟨message, other⟩ := finding
        rw [← htext, hsuggests.unique hhint]
  · obtain ⟨number, hfinding⟩ := exists_finding_of_not_inRange hargs hmessage hrange hlarge
    simp [hfinding, hlarge, hrange, Fault.ofTemplate]

/-- A place between two braces, and another one at the end. -/
def bracedPieces : List (Piece .automatic) :=
  [.literal "\x7b", .next, .literal "\x7d ", .next]

/-- A place for the second argument, a brace, and a place for the eighth argument. -/
def bracedHint : List (Piece .manual) :=
  [.numbered ⟨['0', '1'], by decide, List.all_eq_true.mp rfl⟩, .literal "\x7b",
    .numbered ⟨['7'], by decide, List.all_eq_true.mp rfl⟩]

/-- A rule with these templates. -/
def bracedInfo : RuleInfo where
  code := "S1"
  name := "s-one"
  category := .style
  message := "\x7b\x7b\x7b\x7d\x7d\x7d \x7b\x7d"
  suggestion := some "\x7b01\x7d\x7b\x7b\x7b7\x7d"

/-- Braces inside of arguments are kept, and a suggestion that misses an argument stays as it is
written. -/
theorem finding_bracedInfo :
    bracedInfo.message = template bracedPieces ∧
    bracedInfo.suggestion = some (template bracedHint) ∧
    bracedInfo.finding ["\x7b0\x7d", "\x7d"] =
      .ok ⟨"\x7b\x7b0\x7d\x7d \x7d", some "\x7b01\x7d\x7b\x7b\x7b7\x7d"⟩ := by
  have hmessage : bracedInfo.message = template bracedPieces := rfl
  have hsuggestion : bracedInfo.suggestion = (some bracedHint).map template := rfl
  have hparts : Text.parts bracedPieces =
      [.literal "\x7b", .argument 0, .literal "\x7d ", .argument 1] := rfl
  have hhintParts : Text.parts bracedHint = [.argument 1, .literal "\x7b", .argument 7] := rfl
  have hrange : InRange ["\x7b0\x7d", "\x7d"] bracedPieces := by
    intro number hnumber
    have hnumbers : number = 0 ∨ number = 1 := by simpa [hparts] using hnumber
    simp only [List.length_cons, List.length_nil]
    omega
  have hhint : ¬ InRange ["\x7b0\x7d", "\x7d"] bracedHint := by
    intro h
    exact absurd (h 7 (by simp [hhintParts])) (by decide)
  have hsmall : ∀ hint ∈ some bracedHint, ¬ TooLarge ["\x7b0\x7d", "\x7d"] hint := by
    rintro hint ⟨⟩ ⟨_, before, number, after, hsplit, _, hlarge⟩
    have hnumber : .argument number ∈ Text.parts bracedHint := by simp [hsplit]
    have hnumbers : number = 1 ∨ number = 7 := by simpa [hhintParts] using hnumber
    simp only [Text.maxIndex] at hlarge
    omega
  refine ⟨hmessage, hsuggestion, ?_⟩
  exact ((finding_substitutes_verbatim bracedInfo bracedPieces (some bracedHint)
    ["\x7b0\x7d", "\x7d"] (by decide) hmessage hsuggestion).1 _).mpr
      ⟨hrange, (fun h => nomatch h.1), hsmall, rfl, fun h => absurd h hhint, fun _ => rfl⟩

/-- A place for an argument whose number is above the largest index. -/
def hugeNumber : List (Piece .manual) :=
  [.numbered ⟨List.replicate 20 '9', by decide, List.all_eq_true.mp rfl⟩]

/-- A rule with this template as its message. -/
def hugeInfo : RuleInfo where
  code := "S1"
  name := "s-one"
  category := .style
  message := "\x7b99999999999999999999\x7d"

/-- An argument out of range is no index error where its number is too large. -/
theorem finding_hugeInfo :
    hugeInfo.message = template hugeNumber ∧ ¬ InRange ["A", "B"] hugeNumber ∧
    hugeInfo.finding ["A", "B"] = .error (.malformed .hugeIndex) ∧
    (Fault.ofTemplate (.malformed .hugeIndex)).sort = "ValueError" := by
  have hmessage : hugeInfo.message = template hugeNumber := rfl
  have hparts : Text.parts hugeNumber = [.argument 99999999999999999999] := by decide
  have hlarge : TooLarge ["A", "B"] hugeNumber :=
    ⟨rfl, [], 99999999999999999999, [], hparts, (fun _ h => nomatch h), by decide⟩
  refine ⟨hmessage, fun h => ?_, finding_of_tooLarge (by decide) hmessage hlarge, rfl⟩
  exact absurd (h 99999999999999999999 (hparts ▸ List.mem_singleton_self _)) (by decide)

end TreeLint.RuleInfo
