import TreeLint.Text.Template

/-!
# Filling templates

Literal text comes out of a template as it was written. A template with one place for an argument
is filled with that argument, whatever characters the argument holds.
-/

namespace TreeLint.Text

/-- Literal text at the front of a template stands in front of what the rest is filled to. -/
theorem fillSegments_literals (args : List String) (numbering : Numbering) (text : List Char)
    (rest : List Segment) :
    fillSegments args numbering (text.map .literal ++ rest) =
      (fillSegments args numbering rest).map (text ++ ·) := by
  induction text with
  | nil => cases hrest : fillSegments args numbering rest <;> simp [hrest, Except.map]
  | cons c text ih =>
    rw [List.map_cons, List.cons_append, fillSegments, ih]
    cases fillSegments args numbering rest <;> rfl

/-- A text with its braces doubled is read as the text itself. -/
theorem segments_doubleBraces_self (text : List Char) :
    segments (doubleBraces text) = text.map .literal ++ [] := by
  have h := segments_doubleBraces text []
  rwa [List.append_nil, segments] at h

/-- A template without places is filled with nothing, whatever the arguments. -/
theorem fill_of_eq_doubleBraces {template text : String}
    (h : template.toList = doubleBraces text.toList) (args : List String) :
    fill template args = .ok text := by
  unfold fill
  rw [h, segments_doubleBraces_self, fillSegments_literals]
  simp [fillSegments, bind, Except.bind, pure, Except.pure, Except.map]

/-- A template with one place between literal texts is filled by putting its argument there. -/
theorem fill_of_eq_append {template before after : String}
    (h : template.toList =
      doubleBraces before.toList ++ '{' :: '}' :: doubleBraces after.toList) (arg : String) :
    fill template [arg] = .ok (before ++ arg ++ after) := by
  have hsegments : segments template.toList =
      before.toList.map .literal ++ .automatic :: (after.toList.map .literal ++ []) := by
    rw [h, segments_doubleBraces, ← segments_doubleBraces_self after.toList]
    simp [segments, fieldSegments, fieldSegment]
  unfold fill
  rw [hsegments, fillSegments_literals, fillSegments, fillSegments_literals]
  simp [fillSegments, argument, bind, Except.bind, pure, Except.pure, Except.map,
    String.ofList_append, String.append_assoc]

end TreeLint.Text
