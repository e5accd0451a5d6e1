import Mathlib.Algebra.GroupWithZero.Nat
import Mathlib.Data.List.Forall2
import Mathlib.Data.List.Induction
import TreeLint.Command.Lint
import TreeLint.Proofs.Report.Editor
import TreeLint.Proofs.Report.RoundTrip

/-!
# Documents for several files

The document of reports has one report for each result, in order. The document for editors is a
table by file name, so that of results with the same name only the last is kept: a result is
shadowed by any later one with its name. Both documents are read back from what is written, and so
it can be told exactly which diagnostics a reader finds: in the reports all of them, in the table
those of the results that are not shadowed. None is lost exactly if every shadowed result is without
diagnostics.
-/

namespace TreeLint

/-- A write to a table replaces the row of its key by one at the end, up to order. -/
theorem Table.set_perm {κ α : Type} [DecidableEq κ] {rows : Table κ α} (h : rows.keys.Nodup)
    (key : κ) (value : α) :
    (rows.set key value).Perm (rows.filter (·.1 ≠ key) ++ [(key, value)]) := by
  induction rows with
  | nil => exact .refl _
  | cons row rest ih =>
    obtain ⟨k, v⟩ := row
    obtain ⟨hk, hrest⟩ := List.nodup_cons.mp h
    by_cases hkey : k = key
    · subst hkey
      have hothers : rest.filter (·.1 ≠ k) = rest := by
        refine List.filter_eq_self.mpr fun row hrow => decide_eq_true fun heq => hk ?_
        exact List.mem_map.mpr ⟨row, hrow, heq⟩
      rw [set, if_pos rfl, List.filter_cons_of_neg (by simp), hothers]
      exact (List.perm_append_singleton _ _).symm
    · rw [set, if_neg hkey, List.filter_cons_of_pos (by simpa using hkey), List.cons_append]
      exact (ih hrest).cons _

/-- Every item has its counterpart in a list that corresponds item by item. -/
theorem exists_mem_of_forall₂ {α β : Type} {R : α → β → Prop} {items : List α} {others : List β}
    (h : List.Forall₂ R items others) {item : α} (hitem : item ∈ items) :
    ∃ other ∈ others, R item other := by
  induction h with
  | nil => cases hitem
  | @cons first counterpart _ _ hfirst _ ih =>
    rcases List.mem_cons.mp hitem with rfl | hitem
    · exact ⟨counterpart, List.mem_cons_self, hfirst⟩
    · obtain ⟨other, hmem, hother⟩ := ih hitem
      exact ⟨other, List.mem_cons_of_mem counterpart hmem, hother⟩

namespace Command

open Document (bind_eq_ok_iff)

/-- The results after which none has the same file name. -/
def unshadowed : List LintResult → List LintResult
  | [] => []
  | result :: rest =>
    if result.fileName ∈ rest.map LintResult.fileName then unshadowed rest
    else result :: unshadowed rest

/-- The diagnostics of a result in the form for editors. -/
def editorForm (result : LintResult) : Except Editor.RangeError Json :=
  Editor.diagnosticsJson (some (.ofText result.text)) result.diagnostics

/-- A further result shadows those with its name. -/
theorem unshadowed_append (results : List LintResult) (last : LintResult) :
    unshadowed (results ++ [last]) =
      (unshadowed results).filter (·.fileName ≠ last.fileName) ++ [last] := by
  induction results with
  | nil => rfl
  | cons result rest ih =>
    simp only [List.cons_append, unshadowed, List.map_append, List.mem_append, List.map_cons,
      List.map_nil, List.mem_singleton, ih]
    by_cases hrest : result.fileName ∈ rest.map LintResult.fileName
    · rw [if_pos (.inl hrest), if_pos hrest]
    · by_cases hlast : result.fileName = last.fileName
      · rw [if_pos (.inr hlast), if_neg hrest, List.filter_cons_of_neg (by simpa using hlast)]
      · rw [if_neg (by simp [hrest, hlast]), if_neg hrest,
          List.filter_cons_of_pos (by simpa using hlast), List.cons_append]

/-- Results that are not shadowed have no more diagnostics than all results. -/
theorem sum_unshadowed_le (results : List LintResult) :
    ((unshadowed results).map (·.diagnostics.length)).sum ≤
      (results.map (·.diagnostics.length)).sum := by
  induction results with
  | nil => exact le_rfl
  | cons result rest ih =>
    unfold unshadowed
    split <;> simp only [List.map_cons, List.sum_cons] <;> omega

/-- No result with diagnostics is shadowed. -/
def NoneLost (results : List LintResult) : Prop :=
  ∀ before result after, results = before ++ result :: after →
    result.fileName ∈ after.map LintResult.fileName → result.diagnostics = []

/-- None is lost among several results exactly if the first is not shadowed or has no diagnostics,
and none is lost among the others. -/
theorem noneLost_cons_iff {result : LintResult} {rest : List LintResult} :
    NoneLost (result :: rest) ↔
      (result.fileName ∈ rest.map LintResult.fileName → result.diagnostics = []) ∧
        NoneLost rest := by
  constructor
  · intro h
    refine ⟨h [] result rest rfl, fun before other after hrest => ?_⟩
    exact h (result :: before) other after (hrest ▸ rfl)
  · intro h before other after hresults
    cases before with
    | nil =>
      cases hresults
      exact h.1
    | cons first before =>
      cases hresults
      exact h.2 before other after rfl

/-- The results that are not shadowed have all diagnostics exactly if none is lost. -/
theorem sum_unshadowed_eq_iff (results : List LintResult) :
    ((unshadowed results).map (·.diagnostics.length)).sum =
        (results.map (·.diagnostics.length)).sum ↔ NoneLost results := by
  induction results with
  | nil => exact iff_of_true rfl fun before result after h => by simp at h
  | cons result rest ih =>
    have hle := sum_unshadowed_le rest
    rw [noneLost_cons_iff, ← ih, ← List.length_eq_zero_iff, unshadowed]
    split_ifs with hshadowed
    · simp only [List.map_cons, List.sum_cons, hshadowed, forall_const]
      omega
    · simp only [List.map_cons, List.sum_cons, hshadowed, false_implies, true_and]
      omega

/-! ### The table for editors -/

/-- A further result writes its diagnostics to its name. -/
theorem editorTable_append_eq_ok_iff {results : List LintResult} {last : LintResult}
    {table : Table String Json} :
    editorTable (results ++ [last]) = .ok table ↔
      ∃ before json, editorTable results = .ok before ∧ editorForm last = .ok json ∧
        table = before.set last.fileName json := by
  unfold editorTable
  rw [List.foldlM_append, bind_eq_ok_iff]
  simp only [List.foldlM_cons, List.foldlM_nil, bind_eq_ok_iff]
  constructor
  · rintro ⟨before, hbefore, _, ⟨json, hjson, hset⟩, hdone⟩
    cases hset
    cases hdone
    exact ⟨before, json, hbefore, hjson, rfl⟩
  · rintro ⟨before, json, hbefore, hjson, rfl⟩
    exact ⟨before, hbefore, _, ⟨json, hjson, rfl⟩, rfl⟩

/-- A row for the diagnostics of a result in the form for editors. -/
def IsRowOf (result : LintResult) (row : String × Json) : Prop :=
  row.1 = result.fileName ∧ editorForm result = .ok row.2

/-- The table for editors names each file once, and has, up to order, one row for each result that
is not shadowed. -/
theorem rows_of_editorTable {results : List LintResult} {table : Table String Json}
    (h : editorTable results = .ok table) :
    table.keys.Nodup ∧
      ∃ rows, table.Perm rows ∧ List.Forall₂ IsRowOf (unshadowed results) rows := by
  induction results using List.reverseRecOn generalizing table with
  | nil =>
    cases h
    exact ⟨List.nodup_nil, [], .refl _, .nil⟩
  | append_singleton results last ih =>
    obtain ⟨before, json, hbefore, hjson, rfl⟩ := editorTable_append_eq_ok_iff.mp h
    obtain ⟨hkeys, rows, hperm, hrows⟩ := ih hbefore
    refine ⟨Table.nodup_keys_set hkeys _ _,
      rows.filter (·.1 ≠ last.fileName) ++ [(last.fileName, json)],
      (Table.set_perm hkeys _ _).trans ((hperm.filter _).append_right _), ?_⟩
    rw [unshadowed_append]
    refine List.rel_append (List.rel_filter ?_ hrows) (.cons ⟨rfl, hjson⟩ .nil)
    intro result row hrow
    simp [hrow.1]

/-- Every diagnostic of the results can be carried to an editor. -/
def AllInRange (results : List LintResult) : Prop :=
  ∀ result ∈ results, ∀ d ∈ result.diagnostics, Editor.InRange (.ofText result.text) d

/-- The table for editors exists exactly if every diagnostic is in range. -/
theorem exists_editorTable_iff {results : List LintResult} :
    (∃ table, editorTable results = .ok table) ↔ AllInRange results := by
  unfold AllInRange
  induction results using List.reverseRecOn with
  | nil => exact iff_of_true ⟨[], rfl⟩ nofun
  | append_singleton results last ih =>
    have hform : (∃ json, editorForm last = .ok json) ↔ _ := Editor.exists_diagnosticsJson_iff
    simp only [List.forall_mem_append, List.forall_mem_singleton, ← ih, ← hform,
      editorTable_append_eq_ok_iff]
    constructor
    · rintro ⟨_, before, json, hbefore, hjson, _⟩
      exact ⟨⟨before, hbefore⟩, json, hjson⟩
    · rintro ⟨⟨before, hbefore⟩, json, hjson⟩
      exact ⟨_, before, json, hbefore, hjson, rfl⟩

/-- The document for editors is the table as it is written. -/
theorem report_editor_eq_ok_iff {palette : Palette} {results : List LintResult} {text : String} :
    report palette .editor results = .ok text ↔ ∃ table, editorTable results = .ok table ∧
      text = (Json.obj table).write (.indented 2) ++ "\n" := by
  simp only [report, editorReport, bind_eq_ok_iff]
  refine exists_congr fun table => and_congr_right fun _ => ⟨fun h => ?_, fun h => h ▸ rfl⟩
  cases h
  rfl

/-- The document for editors is written exactly if every diagnostic is in range. -/
theorem exists_editor_report_iff {palette : Palette} {results : List LintResult} :
    (∃ text, report palette .editor results = .ok text) ↔ AllInRange results := by
  rw [← exists_editorTable_iff]
  simp only [report_editor_eq_ok_iff]
  exact ⟨fun ⟨_, table, htable, _⟩ => ⟨table, htable⟩,
    fun ⟨table, htable⟩ => ⟨_, table, htable, rfl⟩⟩

/-- The number of items of a list. -/
def itemCount : Json → Nat
  | .arr items => items.length
  | _ => 0

/-- The number of diagnostics in a document for editors. -/
def editorCount (table : Table String Json) : Nat :=
  (table.map fun row => itemCount row.2).sum

/-- The number of diagnostics in a document of reports. -/
def reportCount (reports : List Json) : Nat :=
  (reports.map fun report => ((report.field? "diagnostics").map itemCount).getD 0).sum

/-- A row for a result has one item for each of its diagnostics. -/
theorem IsRowOf.itemCount_eq {result : LintResult} {row : String × Json} (h : IsRowOf result row) :
    itemCount row.2 = result.diagnostics.length := by
  obtain ⟨items, hitems, _, hlength⟩ := Editor.items_of_diagnosticsJson h.2
  rw [hitems, itemCount, hlength]

/-- The table for editors is plain data, with one item for each diagnostic of a result that is not
shadowed, under the name of its file. -/
theorem plain_of_editorTable {results : List LintResult} {table : Table String Json}
    (h : editorTable results = .ok table) :
    (Json.obj table).Plain ∧
      editorCount table = ((unshadowed results).map (·.diagnostics.length)).sum ∧
      ∀ result ∈ unshadowed results,
        ∃ json, editorForm result = .ok json ∧ table.get? result.fileName = some json := by
  obtain ⟨hkeys, rows, hperm, hrows⟩ := rows_of_editorTable h
  refine ⟨.obj hkeys fun row hrow => ?_, ?_, fun result hresult => ?_⟩
  · obtain ⟨result, _, hrow⟩ := exists_mem_of_forall₂ (List.Forall₂.flip hrows)
      (hperm.mem_iff.mp hrow)
    obtain ⟨_, _, hplain, _⟩ := Editor.items_of_diagnosticsJson hrow.2
    exact hplain
  · have hcounts : List.Forall₂ (· = ·) ((unshadowed results).map (·.diagnostics.length))
        (rows.map fun row => itemCount row.2) := by
      rw [List.forall₂_map_left_iff, List.forall₂_map_right_iff]
      exact hrows.imp fun result row hrow => hrow.itemCount_eq.symm
    rw [List.forall₂_eq_eq_eq] at hcounts
    rw [editorCount, hcounts]
    exact (hperm.map _).sum_nat
  · obtain ⟨row, hmem, hname, hjson⟩ := exists_mem_of_forall₂ hrows hresult
    exact ⟨row.2, hjson, hname ▸ Table.get?_of_mem hkeys (hperm.mem_iff.mpr hmem)⟩

/-- The reports of results, in order. -/
def reports (results : List LintResult) : List Json :=
  results.map fun result =>
    reportJson result.fileName result.diagnostics (result.stats.failures.map RuleFailure.display)

/-- The reports have all diagnostics. -/
theorem reportCount_reports (results : List LintResult) :
    reportCount (reports results) = (results.map (·.diagnostics.length)).sum := by
  rw [reportCount, reports, List.map_map]
  refine congrArg List.sum (List.map_congr_left fun result _ => ?_)
  simp [reportJson, Json.field?, Table.get?, itemCount]

/-- The reports are read back if their numbers are not too long. -/
theorem read_jsonReport {results : List LintResult}
    (h : ∀ result ∈ results, NumbersFit result.diagnostics) :
    Json.read (jsonReport results) = .ok (.arr (reports results)) := by
  refine Json.Plain.read_write_line (.arr fun item hitem => ?_) (.indented 2)
  obtain ⟨result, hresult, rfl⟩ := List.mem_map.mp hitem
  exact (h result hresult).plain_reportJson _ _

/-- The document for editors is written exactly if all diagnostics are in range. Read back, it holds
the diagnostics of every result that is not shadowed, and no others; it has all diagnostics exactly
if none is lost. The document of reports always has all. -/
theorem documents_hold_diagnostics (palette : Palette) (results : List LintResult) :
    ((∃ text, report palette .editor results = .ok text) ↔ AllInRange results) ∧
    (∀ text, report palette .editor results = .ok text →
      ∃ table, Json.read text = .ok (.obj table) ∧
        (∀ result ∈ unshadowed results, ∃ json,
          Editor.diagnosticsJson (some (.ofText result.text)) result.diagnostics = .ok json ∧
          itemCount json = result.diagnostics.length ∧
          Table.get? table result.fileName = some json) ∧
        editorCount table = ((unshadowed results).map (·.diagnostics.length)).sum ∧
        (editorCount table = (results.map (·.diagnostics.length)).sum ↔ NoneLost results)) ∧
    (∃ reports,
      report palette .json results = .ok ((Json.arr reports).write (.indented 2) ++ "\n") ∧
      ((∀ result ∈ results, NumbersFit result.diagnostics) →
        Json.read ((Json.arr reports).write (.indented 2) ++ "\n") = .ok (.arr reports)) ∧
      reportCount reports = (results.map (·.diagnostics.length)).sum) := by
  refine ⟨exists_editor_report_iff, fun text htext => ?_, reports results, rfl, read_jsonReport,
    reportCount_reports results⟩
  obtain ⟨table, htable, rfl⟩ := report_editor_eq_ok_iff.mp htext
  obtain ⟨hplain, hcount, hforms⟩ := plain_of_editorTable htable
  refine ⟨table, hplain.read_write_line _, fun result hresult => ?_, hcount, ?_⟩
  · obtain ⟨json, hjson, hget⟩ := hforms result hresult
    have hrow : IsRowOf result (result.fileName, json) := ⟨rfl, hjson⟩
    exact ⟨json, hjson, hrow.itemCount_eq, hget⟩
  · rw [hcount]
    exact sum_unshadowed_eq_iff results

/-- A file with a variable whose name is not in camel case, and an empty file of the same name. -/
def sameName : List LoadedTree :=
  [⟨"x.ts", "let a_b;", .node { kind := .sourceFile, start := 0, id := 0 }
      [.node { kind := .variableDeclaration, start := 4, name := some "a_b", id := 1 } []], []⟩,
    ⟨"x.ts", "", .node { kind := .sourceFile, start := 0, id := 0 } [], []⟩]

/-- The results for the two files; the first has a diagnostic. -/
def sameNameResults : List LintResult :=
  [⟨"x.ts", "let a_b;", [⟨"x.ts", 1, 5, "Variables must be named in camelCase. a_b is invalid.",
      "TL003", "camel-case-naming", .warning, 4, none⟩], ⟨2, 3, 1, 0, []⟩⟩,
    ⟨"x.ts", "", [], ⟨1, 0, 0, 0, []⟩⟩]

/-- The one diagnostic of two files with the same name is not in the document for editors. -/
theorem report_sameNameResults :
    (sameName.map fun loaded =>
      (({} : Linter).run loaded.source (some loaded.resolver)).outcome.toOption) =
        sameNameResults.map some ∧
    (sameNameResults.map (·.diagnostics.length)).sum = 1 ∧
    (report ⟨false⟩ .editor sameNameResults).toOption = some "\x7b\n  \"x.ts\": []\n\x7d\n" ∧
    Json.read "\x7b\n  \"x.ts\": []\n\x7d\n" = .ok (.obj [("x.ts", .arr [])]) ∧
    editorCount [("x.ts", .arr [])] = 0 := by
  have hplain : (Json.obj [("x.ts", .arr [])]).Plain := by
    refine .obj (by decide : ["x.ts"].Nodup) fun field hfield => ?_
    rw [List.mem_singleton.mp hfield]
    exact .arr nofun
  have hwritten : (Json.obj [("x.ts", .arr [])]).write (.indented 2) ++ "\n" =
      "\x7b\n  \"x.ts\": []\n\x7d\n" := by
    decide +kernel
  refine ⟨by decide +kernel, rfl, by decide +kernel, ?_, rfl⟩
  rw [← hwritten]
  exact hplain.read_write_line (.indented 2)

end Command

end TreeLint
