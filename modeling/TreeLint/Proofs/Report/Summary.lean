import Mathlib.Algebra.GroupWithZero.Nat
import Mathlib.Data.List.Induction
import Mathlib.Data.List.Nodup
import TreeLint.Report.Summary

/-!
# Counts by code

The table of a summary is filled by one write for each diagnostic. It has one row for each code, and
the count in a row is the number of diagnostics with that code, so that no count exceeds the number
of diagnostics.

A write to a new code adds a row behind the others, so that the codes stand in the order in which
they first appear. Each write adds one to the sum of all counts, which is therefore the number of
diagnostics. All counts but the order of the codes are the same for all orders of the diagnostics,
and add up when diagnostics are put together.
-/

namespace TreeLint

/-- In a table with one row for each key, a row holds the value of its key. -/
theorem Table.get?_of_mem {κ α : Type} [DecidableEq κ] {rows : Table κ α} (h : rows.keys.Nodup)
    {key : κ} {value : α} (hrow : (key, value) ∈ rows) : rows.get? key = some value := by
  induction rows with
  | nil => cases hrow
  | cons row rest ih =>
    obtain ⟨k, v⟩ := row
    obtain ⟨hk, hrest⟩ := List.nodup_cons.mp h
    rcases List.mem_cons.mp hrow with heq | hmem
    · cases heq
      exact if_pos rfl
    · have hne : k ≠ key := by
        rintro rfl
        exact hk (List.mem_map.mpr ⟨_, hmem, rfl⟩)
      rw [get?, if_neg hne]
      exact ih hrest hmem

/-- Writing a number changes the sum of a table by as much as it changes the number at its key. -/
theorem Table.sum_set {κ : Type} [DecidableEq κ] (rows : Table κ Nat) (key : κ) (count : Nat) :
    ((rows.set key count).map Prod.snd).sum + (rows.get? key).getD 0 =
      (rows.map Prod.snd).sum + count := by
  induction rows with
  | nil => simp [set, get?]
  | cons row rest ih =>
    obtain ⟨k, v⟩ := row
    by_cases hk : k = key
    · simp only [set, get?, if_pos hk, Option.getD_some, List.map_cons, List.sum_cons]
      omega
    · simp only [set, get?, if_neg hk, List.map_cons, List.sum_cons]
      omega

/-! ### Order of first appearance -/

/-- The keys are the distinct items of a list, in the order in which they first appear in it. -/
structure IsFirstAppearance {α : Type} [DecidableEq α] (keys items : List α) : Prop where
  mem_iff : ∀ key, key ∈ keys ↔ key ∈ items
  pairwise : keys.Pairwise fun key later => items.idxOf key < items.idxOf later

/-- One more item leaves the keys as they are if it is among them, and goes behind them if not. -/
theorem IsFirstAppearance.append {α : Type} [DecidableEq α] {keys items : List α}
    (h : IsFirstAppearance keys items) (item : α) :
    IsFirstAppearance (if item ∈ keys then keys else keys ++ [item]) (items ++ [item]) := by
  -- Items stay where they are when one is added behind them.
  have hkeys : keys.Pairwise fun key later =>
      (items ++ [item]).idxOf key < (items ++ [item]).idxOf later := by
    refine h.pairwise.imp_of_mem fun hkey hlater hlt => ?_
    rwa [List.idxOf_append_of_mem ((h.mem_iff _).mp hkey),
      List.idxOf_append_of_mem ((h.mem_iff _).mp hlater)]
  by_cases hitem : item ∈ keys
  · rw [if_pos hitem]
    refine ⟨fun key => ?_, hkeys⟩
    rw [h.mem_iff, List.mem_append, List.mem_singleton]
    exact ⟨.inl, fun hkey => hkey.elim id fun heq => heq ▸ (h.mem_iff item).mp hitem⟩
  · rw [if_neg hitem]
    refine ⟨fun key => by rw [List.mem_append, List.mem_append, h.mem_iff], ?_⟩
    refine List.pairwise_append.mpr ⟨hkeys, List.pairwise_singleton _ _, ?_⟩
    intro key hkey later hlater
    have hbefore := (h.mem_iff key).mp hkey
    rw [List.mem_singleton.mp hlater, List.idxOf_append_of_mem hbefore,
      List.idxOf_append_of_notMem (mt (h.mem_iff item).mpr hitem)]
    exact Nat.lt_add_right _ (List.idxOf_lt_length_of_mem hbefore)

namespace Summary

/-- One more diagnostic adds one to the count of its code and to no other. -/
theorem getD_get?_countCode (counts : Table String Nat) (d : Diagnostic) (code : String) :
    ((countCode counts d).get? code).getD 0 =
      (counts.get? code).getD 0 + if d.code = code then 1 else 0 := by
  by_cases h : d.code = code
  · rw [if_pos h, countCode, h, Table.get?_set_self]
    rfl
  · rw [if_neg h, countCode, Table.get?_set_of_ne counts _ (Ne.symm h)]
    rfl

/-- Each count grows by the number of diagnostics with its code. -/
theorem getD_get?_foldl_countCode (diagnostics : List Diagnostic) (counts : Table String Nat)
    (code : String) :
    ((diagnostics.foldl countCode counts).get? code).getD 0 =
      (counts.get? code).getD 0 + diagnostics.countP (·.code = code) := by
  induction diagnostics generalizing counts with
  | nil => rfl
  | cons d rest ih =>
    rw [List.foldl_cons, ih, getD_get?_countCode, List.countP_cons]
    simp only [decide_eq_true_eq]
    omega

/-- Counting keeps one row for each code. -/
theorem nodup_keys_foldl_countCode (diagnostics : List Diagnostic) {counts : Table String Nat}
    (h : counts.keys.Nodup) : (diagnostics.foldl countCode counts).keys.Nodup := by
  induction diagnostics generalizing counts with
  | nil => exact h
  | cons d rest ih => exact ih (Table.nodup_keys_set h d.code _)

/-- A summary has one row for each code. -/
theorem nodup_keys_byCode (diagnostics : List Diagnostic) :
    (ofDiagnostics diagnostics).byCode.keys.Nodup :=
  nodup_keys_foldl_countCode diagnostics List.nodup_nil

/-- The count in a row is the number of diagnostics with the code of the row. -/
theorem count_of_mem_byCode {diagnostics : List Diagnostic} {row : String × Nat}
    (h : row ∈ (ofDiagnostics diagnostics).byCode) :
    row.2 = diagnostics.countP (·.code = row.1) := by
  have hvalue := Table.get?_of_mem (nodup_keys_byCode diagnostics) h
  have hcount := getD_get?_foldl_countCode diagnostics [] row.1
  change ((ofDiagnostics diagnostics).byCode.get? row.1).getD 0 = _ at hcount
  rw [hvalue] at hcount
  simpa [Table.get?] using hcount

/-! ### All counts -/

/-- The count of a code in a summary, zero where it has no row. -/
def countOf (summary : Summary) (code : String) : Nat :=
  (summary.byCode.get? code).getD 0

/-- The count of a code is the number of diagnostics with it. -/
theorem countOf_ofDiagnostics (diagnostics : List Diagnostic) (code : String) :
    (ofDiagnostics diagnostics).countOf code = diagnostics.countP (·.code = code) := by
  change ((diagnostics.foldl countCode []).get? code).getD 0 = _
  rw [getD_get?_foldl_countCode]
  exact Nat.zero_add _

/-- The codes of a summary stand in order of first appearance. -/
theorem isFirstAppearance_byCode (diagnostics : List Diagnostic) :
    IsFirstAppearance (ofDiagnostics diagnostics).byCode.keys
      (diagnostics.map Diagnostic.code) := by
  change IsFirstAppearance (diagnostics.foldl countCode []).keys _
  induction diagnostics using List.reverseRecOn with
  | nil => exact ⟨fun _ => Iff.rfl, .nil⟩
  | append_singleton before d ih =>
    rw [List.foldl_append, List.map_append, List.foldl_cons, List.foldl_nil, countCode,
      Table.keys_set]
    exact ih.append d.code

/-- One more diagnostic adds one to the sum of all counts. -/
theorem sum_countCode (counts : Table String Nat) (d : Diagnostic) :
    ((countCode counts d).map Prod.snd).sum = (counts.map Prod.snd).sum + 1 := by
  have hsum := Table.sum_set counts d.code ((counts.get? d.code).getD 0 + 1)
  rw [countCode]
  omega

/-- The sum of all counts grows by the number of diagnostics. -/
theorem sum_foldl_countCode (diagnostics : List Diagnostic) (counts : Table String Nat) :
    ((diagnostics.foldl countCode counts).map Prod.snd).sum =
      (counts.map Prod.snd).sum + diagnostics.length := by
  induction diagnostics generalizing counts with
  | nil => rfl
  | cons d rest ih =>
    rw [List.foldl_cons, ih, sum_countCode, List.length_cons]
    omega

/-- Every diagnostic is either an error or a warning. -/
theorem countP_error_add_countP_warning (diagnostics : List Diagnostic) :
    diagnostics.countP (·.severity = .error) + diagnostics.countP (·.severity = .warning) =
      diagnostics.length := by
  have hwarning : (fun d : Diagnostic => decide (d.severity = .warning)) =
      fun d => decide ¬ decide (d.severity = .error) = true := by
    funext d
    cases h : d.severity <;> rfl
  rw [hwarning, ← List.length_eq_countP_add_countP]

/-- A summary counts a list of diagnostics: all of them, the errors and the warnings among them,
and those with each code, with one row for each code in order of first appearance. -/
structure Counts (summary : Summary) (diagnostics : List Diagnostic) : Prop where
  total : summary.total = diagnostics.length
  errors : summary.errors = diagnostics.countP (·.severity = .error)
  warnings : summary.warnings = diagnostics.countP (·.severity = .warning)
  errors_add_warnings : summary.errors + summary.warnings = summary.total
  codes : IsFirstAppearance summary.byCode.keys (diagnostics.map Diagnostic.code)
  nodup : summary.byCode.keys.Nodup
  rows : ∀ row ∈ summary.byCode, row.2 = diagnostics.countP (·.code = row.1)
  sum : (summary.byCode.map Prod.snd).sum = summary.total

/-- The summary of a list of diagnostics counts them. -/
theorem counts_ofDiagnostics (diagnostics : List Diagnostic) :
    Counts (ofDiagnostics diagnostics) diagnostics := by
  have herrors : (ofDiagnostics diagnostics).errors =
      diagnostics.countP (·.severity = .error) :=
    List.countP_congr fun d _ => by rw [Diagnostic.isError, beq_iff_eq, decide_eq_true_eq]
  have hboth := countP_error_add_countP_warning diagnostics
  have hwarnings : (ofDiagnostics diagnostics).warnings =
      diagnostics.countP (·.severity = .warning) := by
    change diagnostics.length - (ofDiagnostics diagnostics).errors = _
    omega
  exact {
    total := rfl
    errors := herrors
    warnings := hwarnings
    errors_add_warnings := by rw [herrors, hwarnings, hboth]; rfl
    codes := isFirstAppearance_byCode diagnostics
    nodup := nodup_keys_byCode diagnostics
    rows := fun row => count_of_mem_byCode
    sum := (sum_foldl_countCode diagnostics []).trans (Nat.zero_add _) }

/-- The summary of a list of diagnostics counts them, and when the list is split into two parts, in
any way, all its numbers are the sums of those of the parts. -/
theorem summary_counts_and_adds (diagnostics : List Diagnostic) :
    Counts (ofDiagnostics diagnostics) diagnostics ∧
    ∀ part other : List Diagnostic, diagnostics.Perm (part ++ other) →
      (ofDiagnostics diagnostics).total = (ofDiagnostics part).total + (ofDiagnostics other).total ∧
      (ofDiagnostics diagnostics).errors =
        (ofDiagnostics part).errors + (ofDiagnostics other).errors ∧
      (ofDiagnostics diagnostics).warnings =
        (ofDiagnostics part).warnings + (ofDiagnostics other).warnings ∧
      ∀ code, (ofDiagnostics diagnostics).countOf code =
        (ofDiagnostics part).countOf code + (ofDiagnostics other).countOf code := by
  refine ⟨counts_ofDiagnostics diagnostics, fun part other hsplit => ?_⟩
  have hcountP (p : Diagnostic → Bool) :
      diagnostics.countP p = part.countP p + other.countP p := by
    rw [hsplit.countP_eq, List.countP_append]
  refine ⟨hsplit.length_eq.trans List.length_append, ?_, ?_, fun code => ?_⟩
  · exact hcountP Diagnostic.isError
  · simp only [(counts_ofDiagnostics _).warnings, hcountP]
  · simp only [countOf_ofDiagnostics, hcountP]

/-- Three diagnostics with two codes, the later of which comes first in the alphabet. -/
def twoCodes : List Diagnostic :=
  [⟨"a.ts", 1, 1, "no", "TL003", "", .warning, 0, none⟩,
   ⟨"a.ts", 1, 5, "no", "TL001", "", .error, 4, none⟩,
   ⟨"a.ts", 2, 1, "no", "TL003", "", .error, 9, none⟩]

/-- The diagnostics are counted by severity and by code, and split into those of one code and the
other their counts add up. -/
theorem summary_counts_twoCodes :
    ofDiagnostics twoCodes = ⟨3, 2, 1, [("TL003", 2), ("TL001", 1)]⟩ ∧
    Counts (ofDiagnostics twoCodes) twoCodes ∧
    (ofDiagnostics twoCodes).errors = (ofDiagnostics (twoCodes.filter (·.code = "TL003"))).errors +
      (ofDiagnostics (twoCodes.filter (·.code = "TL001"))).errors := by
  obtain ⟨hcounts, hsplit⟩ := summary_counts_and_adds twoCodes
  exact ⟨by decide, hcounts, (hsplit _ _ (by decide)).2.1⟩

end Summary

end TreeLint
