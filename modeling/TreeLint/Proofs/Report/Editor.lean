import TreeLint.Proofs.Json.RoundTrip
import TreeLint.Proofs.Tree.Labels
import TreeLint.Report.Editor

/-!
# What the protocol can carry

Diagnostics are brought into the form for editors one by one, and only a line or a character beyond
the largest coordinate stands in the way. What comes of them is plain data, so that a document made
of it is read back. The place of a diagnostic in a text that is shorter than the largest coordinate
can always be carried.
-/

namespace TreeLint.Editor

open Document (bind_eq_ok_iff)

/-- The line of a diagnostic and the end of its token do not lie behind the largest coordinate. -/
def InRange (lines : Text.LineMap) (d : Diagnostic) : Prop :=
  d.line - 1 ≤ maxCoordinate ∧
    (tokenEnd (lines.lineChars d.line) (d.column - 1).toNat : Int) ≤ maxCoordinate

/-- A token ends behind its start. -/
theorem lt_tokenEnd (line : List Char) (character : Nat) : character < tokenEnd line character := by
  unfold tokenEnd
  omega

/-- A token ends inside of its line, or it has a single character. -/
theorem tokenEnd_le (line : List Char) (character : Nat) :
    tokenEnd line character ≤ max line.length (character + 1) := by
  have htoken := (List.takeWhile_sublist (fun c => !endsToken c)
    (l := line.drop character)).length_le
  rw [List.length_drop] at htoken
  unfold tokenEnd
  omega

/-- A position is made exactly if neither coordinate is too large. -/
theorem Position.make_eq_ok_iff {line character : Int} {p : Position} :
    make line character = .ok p ↔
      line ≤ maxCoordinate ∧ character ≤ maxCoordinate ∧ p = ⟨line, character⟩ := by
  unfold make
  split_ifs with hline hcharacter
  · exact iff_of_false nofun fun h => by omega
  · exact iff_of_false nofun fun h => by omega
  · rw [Except.ok.injEq, eq_comm]
    exact ⟨fun h => ⟨by omega, by omega, h⟩, fun h => h.2.2⟩

/-- Both coordinates of a position can be carried. -/
def Position.Carried (p : Position) : Prop :=
  (0 ≤ p.line ∧ p.line ≤ maxCoordinate) ∧ 0 ≤ p.character ∧ p.character ≤ maxCoordinate

/-- A diagnostic has the form for editors exactly if it is in range. Both ends of its range can then
be carried. -/
theorem ofDiagnostic_eq_ok_iff {lines : Text.LineMap} {d : Diagnostic} {e : EditorDiagnostic} :
    ofDiagnostic (some lines) d = .ok e ↔ InRange lines d ∧
      e = ⟨⟨max 0 (d.line - 1), (d.column - 1).toNat⟩,
        ⟨max 0 (d.line - 1), tokenEnd (lines.lineChars d.line) (d.column - 1).toNat⟩,
        fullMessage d, d.severity, d.code⟩ := by
  have hless := lt_tokenEnd (lines.lineChars d.line) (d.column - 1).toNat
  have hmax : 0 ≤ maxCoordinate := by decide
  simp only [ofDiagnostic, bind_eq_ok_iff, Position.make_eq_ok_iff]
  constructor
  · rintro ⟨_, ⟨_, _, rfl⟩, _, ⟨hline, hstop, rfl⟩, he⟩
    refine ⟨⟨by omega, hstop⟩, ?_⟩
    cases he
    rfl
  · rintro ⟨⟨hline, hstop⟩, rfl⟩
    exact ⟨_, ⟨by omega, by omega, rfl⟩, _, ⟨by omega, hstop, rfl⟩, rfl⟩

/-- Both ends of a diagnostic in the form for editors can be carried. -/
theorem carried_of_ofDiagnostic {lines : Text.LineMap} {d : Diagnostic} {e : EditorDiagnostic}
    (h : ofDiagnostic (some lines) d = .ok e) : e.start.Carried ∧ e.stop.Carried := by
  have hless := lt_tokenEnd (lines.lineChars d.line) (d.column - 1).toNat
  have hmax : 0 ≤ maxCoordinate := by decide
  obtain ⟨⟨hline, hstop⟩, rfl⟩ := ofDiagnostic_eq_ok_iff.mp h
  have hlines : 0 ≤ max 0 (d.line - 1) ∧ max 0 (d.line - 1) ≤ maxCoordinate := by omega
  have hcharacter : ((d.column - 1).toNat : Int) ≤ maxCoordinate := by omega
  exact ⟨⟨hlines, Int.natCast_nonneg _, hcharacter⟩, hlines, Int.natCast_nonneg _, hstop⟩

/-- Diagnostics are brought into the form for editors one by one. -/
theorem ofDiagnostics_eq_ok_iff {lines : Option Text.LineMap} {diagnostics : List Diagnostic}
    {carried : List EditorDiagnostic} :
    ofDiagnostics lines diagnostics = .ok carried ↔
      List.Forall₂ (fun d e => ofDiagnostic lines d = .ok e) diagnostics carried := by
  induction diagnostics generalizing carried with
  | nil =>
    rw [ofDiagnostics, Except.ok.injEq, List.forall₂_nil_left_iff, eq_comm]
  | cons d rest ih =>
    simp only [ofDiagnostics, bind_eq_ok_iff, ih, List.forall₂_cons_left_iff]
    constructor
    · rintro ⟨first, hfirst, others, hothers, hdone⟩
      cases hdone
      exact ⟨first, others, hfirst, hothers, rfl⟩
    · rintro ⟨first, others, hfirst, hothers, rfl⟩
      exact ⟨first, hfirst, others, hothers, rfl⟩

/-- Diagnostics have the form for editors exactly if all are in range. -/
theorem exists_diagnosticsJson_iff {lines : Text.LineMap} {diagnostics : List Diagnostic} :
    (∃ json, diagnosticsJson (some lines) diagnostics = .ok json) ↔
      ∀ d ∈ diagnostics, InRange lines d := by
  simp only [diagnosticsJson, bind_eq_ok_iff, ofDiagnostics_eq_ok_iff]
  constructor
  · rintro ⟨_, carried, hcarried, _⟩
    have hboth := hcarried.imp fun d e h => And.intro (ofDiagnostic_eq_ok_iff.mp h).1 h
    exact ((List.forall₂_and_left _ _).mp hboth).1
  · intro h
    induction diagnostics with
    | nil => exact ⟨_, [], .nil, rfl⟩
    | cons d rest ih =>
      obtain ⟨_, carried, hcarried, _⟩ := ih fun other hmem => h other (List.mem_cons_of_mem d hmem)
      exact ⟨_, _ :: carried, .cons (ofDiagnostic_eq_ok_iff.mpr ⟨h d List.mem_cons_self, rfl⟩)
        hcarried, rfl⟩

/-! ### Plain data -/

/-- A coordinate that can be carried is not too long a number. -/
theorem natAbs_lt_numberBound {n : Int} (h : 0 ≤ n ∧ n ≤ maxCoordinate) :
    n.natAbs < Json.numberBound := by
  have hten : maxCoordinate < (10 ^ 10 : Nat) := by decide
  have hdigits : 10 ≤ Text.maxDigits := by decide
  have hbound : 10 ^ 10 ≤ Json.numberBound := by
    unfold Json.numberBound
    generalize Text.maxDigits = most at hdigits ⊢
    exact Nat.pow_le_pow_right (by decide) hdigits
  omega

/-- A position that can be carried is plain data. -/
theorem Position.Carried.plain_toJson {p : Position} (h : p.Carried) : p.toJson.Plain := by
  refine .obj (by decide : (["line", "character"] : List String).Nodup) ?_
  intro field hfield
  simp only [List.mem_cons, List.not_mem_nil, or_false] at hfield
  rcases hfield with rfl | rfl
  · exact .int (natAbs_lt_numberBound h.1)
  · exact .int (natAbs_lt_numberBound h.2)

/-- A diagnostic whose range can be carried is plain data. -/
theorem EditorDiagnostic.plain_toJson {e : EditorDiagnostic}
    (h : e.start.Carried ∧ e.stop.Carried) : e.toJson.Plain := by
  have hrange : (Json.obj [("start", e.start.toJson), ("end", e.stop.toJson)]).Plain := by
    refine .obj (by decide : (["start", "end"] : List String).Nodup) ?_
    intro field hfield
    simp only [List.mem_cons, List.not_mem_nil, or_false] at hfield
    rcases hfield with rfl | rfl
    · exact h.1.plain_toJson
    · exact h.2.plain_toJson
  have hseverity : (Json.ofNat (severityNumber e.severity)).Plain := by
    refine .int (natAbs_lt_numberBound ?_)
    cases e.severity <;> decide
  refine .obj ?_ ?_
  · by_cases hcode : e.code.isEmpty <;> simp [Table.keys, hcode]
  · intro field hfield
    simp only [List.mem_append, List.mem_cons, List.not_mem_nil, or_false] at hfield
    rcases hfield with ((rfl | rfl | rfl) | hcode) | rfl
    · exact hrange
    · exact .str _
    · exact hseverity
    · split at hcode
      · cases hcode
      · rw [List.mem_singleton.mp hcode]
        exact .str _
    · exact .str _

/-- Diagnostics in the form for editors are a list of plain data with one item for each. -/
theorem items_of_diagnosticsJson {lines : Text.LineMap} {diagnostics : List Diagnostic}
    {json : Json} (h : diagnosticsJson (some lines) diagnostics = .ok json) :
    ∃ items, json = .arr items ∧ json.Plain ∧ items.length = diagnostics.length := by
  simp only [diagnosticsJson, bind_eq_ok_iff, ofDiagnostics_eq_ok_iff] at h
  obtain ⟨carried, hcarried, hjson⟩ := h
  cases hjson
  have hranges : List.Forall₂ (fun e d => (e.start.Carried ∧ e.stop.Carried) ∧
      ofDiagnostic (some lines) d = .ok e) carried diagnostics :=
    (List.Forall₂.flip hcarried).imp fun e d h => ⟨carried_of_ofDiagnostic h, h⟩
  refine ⟨_, rfl, .arr fun item hitem => ?_, ?_⟩
  · obtain ⟨e, he, rfl⟩ := List.mem_map.mp hitem
    exact EditorDiagnostic.plain_toJson (((List.forall₂_and_left _ _).mp hranges).1 e he)
  · rw [List.length_map, hcarried.length_eq]

/-! ### Places in a text -/

/-- A text has at most one line more than it has characters. -/
theorem length_startsAfter_le (pos : Nat) (text : List Char) :
    (Text.startsAfter pos text).length ≤ text.length := by
  fun_induction Text.startsAfter pos text with
  | case1 => simp
  | case2 pos rest ih =>
    simp only [List.length_cons]
    omega
  | case3 pos c rest _ _ ih =>
    simp only [List.length_cons]
    omega
  | case4 pos c rest _ _ ih =>
    simp only [List.length_cons]
    omega

/-- A line is no longer than its text. -/
theorem length_lineChars_le (lines : Text.LineMap) (line : Int) :
    (lines.lineChars line).length ≤ lines.chars.length := by
  unfold Text.LineMap.lineChars
  dsimp only
  split
  · exact Nat.zero_le _
  · split
    · exact Nat.zero_le _
    · rw [List.length_reverse]
      refine Nat.le_trans (List.dropWhile_sublist _).length_le ?_
      rw [List.length_reverse]
      exact ((List.take_sublist _ _).trans (List.drop_sublist _ _)).length_le

/-- Neither line nor column of an offset inside of a text exceeds its length by more than one. -/
theorem position_le {text : String} {offset : Int} {position : Text.Position}
    (h : (Text.LineMap.ofText text).position offset = .ok position) :
    position.line ≤ text.length + 1 ∧ position.column ≤ text.length + 1 := by
  have hlines := length_startsAfter_le 0 text.toList
  rw [String.length_toList] at hlines
  simp only [Text.LineMap.position, Text.LineMap.ofText, String.length_toList] at h
  split_ifs at h with houtside
  cases h
  have hupTo := (List.takeWhile_sublist (fun start => decide (start ≤ offset.toNat))
    (l := 0 :: Text.startsAfter 0 text.toList)).length_le
  rw [List.length_cons] at hupTo
  dsimp only
  omega

/-- A diagnostic placed in a text that is shorter than the largest coordinate is in range. -/
theorem inRange_of_position {text : String} (h : text.length < maxCoordinate) {d : Diagnostic}
    {offset : Int} {position : Text.Position}
    (hposition : (Text.LineMap.ofText text).position offset = .ok position)
    (hline : d.line = position.line) (hcolumn : d.column = position.column) :
    InRange (.ofText text) d := by
  obtain ⟨hline', hcolumn'⟩ := position_le hposition
  have hend := tokenEnd_le ((Text.LineMap.ofText text).lineChars d.line) (d.column - 1).toNat
  have hlength := length_lineChars_le (Text.LineMap.ofText text) d.line
  simp only [Text.LineMap.ofText, String.length_toList] at hlength
  unfold InRange
  simp only [Text.LineMap.ofText] at hend ⊢
  omega

end TreeLint.Editor
