import TreeLint.Lint.Run
import TreeLint.Proofs.Config.Levels

/-!
# What a run must give

A run walks with a stack, looks rules up in an index and adds to a tally. The same is computed here
from lists alone: pair each node, in order, with the rules that inspect its kind, in order of
registration; take the verdict of every pair; then keep the diagnostics and the failures and count
the rest. A finding outside the text is the only thing that can go wrong.
-/

namespace TreeLint

/-- What a rule says about a node of a kind that starts at an offset. -/
structure Judgement where
  kind : Kind
  start : Int
  info : RuleInfo
  verdict : Verdict
deriving DecidableEq

namespace Judgement

/-- The finding, if the verdict is one. -/
def finding? (judgement : Judgement) : Option Finding :=
  match judgement.verdict with
  | .ok finding => finding
  | .error _ => none

/-- The record of a failure, if the verdict is one. -/
def failure? (judgement : Judgement) : Option RuleFailure :=
  match judgement.verdict with
  | .ok _ => none
  | .error fault =>
    some ⟨judgement.info.code, judgement.kind, judgement.start, fault.summary⟩

/-- The diagnostic of a finding, unless the rule is not enforced. It stands at the start of the
node, and is an error exactly when the rule is denied. -/
def report? (level : RuleInfo → Level) (fileName : String) (lines : Text.LineMap)
    (judgement : Judgement) : Option (Except Text.OffsetError Diagnostic) :=
  match judgement.finding? with
  | none => none
  | some finding =>
    if level judgement.info = .allow then none
    else some ((lines.position judgement.start).map fun position => {
      fileName := fileName
      line := position.line
      column := position.column
      message := finding.message
      code := judgement.info.code
      rule := judgement.info.name
      severity := if level judgement.info = .deny then .error else .warning
      offset := judgement.start
      suggestion := finding.suggestion })

/-- Whether there is a finding. -/
def isFound (judgement : Judgement) : Bool :=
  judgement.finding?.isSome

/-- Whether there is a finding of a rule that is not enforced. -/
def isSuppressed (level : RuleInfo → Level) (judgement : Judgement) : Bool :=
  judgement.isFound && level judgement.info = .allow

/-- A judgement is placed unless it is a finding of an enforced rule outside the text. -/
theorem report?_ne_error_iff {level : RuleInfo → Level} {fileName text : String}
    {judgement : Judgement} :
    (∀ e, judgement.report? level fileName (.ofText text) ≠ some (.error e)) ↔
      (judgement.isFound = true → level judgement.info ≠ .allow →
        0 ≤ judgement.start ∧ judgement.start ≤ text.length) := by
  unfold report? isFound
  cases judgement.finding? with
  | none => simp
  | some finding =>
    by_cases hallow : level judgement.info = .allow
    · simp [hallow]
    · simp only [hallow, if_false, Text.LineMap.position, Text.LineMap.ofText, String.length_toList]
      by_cases houtside : judgement.start < 0 ∨ (text.length : Int) < judgement.start
      · simp only [if_pos houtside, Except.map]
        refine ⟨fun h => absurd rfl (h _), fun h => ?_⟩
        have hinside := h rfl hallow
        omega
      · simp only [if_neg houtside, Except.map]
        refine ⟨fun _ _ _ => by omega, fun _ e he => ?_⟩
        cases he

end Judgement

/-- A rule together with the vertex of a node that it inspects. -/
structure Inspection where
  vertex : Vertex
  rule : Rule

namespace Inspection

/-- All pairs of nodes and rules that inspect them, in order of the nodes, then of the rules. -/
def all (rules : List Rule) (vertices : List Vertex) : List Inspection :=
  vertices.flatMap fun vertex =>
    (rules.filter (·.inspects vertex.node.kind)).map fun rule => ⟨vertex, rule⟩

/-- What the check of the rule ends with. -/
def judge (resolve : Types.Resolver) (pair : Inspection) : Judgement :=
  ⟨pair.vertex.node.kind, pair.vertex.node.start, pair.rule.info,
    (pair.rule.check pair.vertex).eval resolve⟩

end Inspection

/-- What rules say about nodes, in order of the nodes, then of the rules. -/
def Judgement.all (resolve : Types.Resolver) (rules : List Rule) (vertices : List Vertex) :
    List Judgement :=
  (Inspection.all rules vertices).map (Inspection.judge resolve)

/-- The judgements on the first node come before those on the others. -/
theorem Judgement.all_cons (resolve : Types.Resolver) (rules : List Rule) (vertex : Vertex)
    (rest : List Vertex) :
    all resolve rules (vertex :: rest) =
      all resolve rules [vertex] ++ all resolve rules rest := by
  simp [all, Inspection.all]

/-- Counts and failures for the given number of nodes and the given judgements. -/
def Stats.reference (level : RuleInfo → Level) (visited : Nat) (judgements : List Judgement) :
    Stats where
  nodesVisited := visited
  rulesEvaluated := judgements.length
  findings := judgements.countP Judgement.isFound
  suppressed := judgements.countP (Judgement.isSuppressed level)
  failures := judgements.filterMap Judgement.failure?

/-- The diagnostics of all judgements, or the first misplaced finding. -/
def Diagnostic.reference (level : RuleInfo → Level) (fileName text : String)
    (judgements : List Judgement) : Except Text.OffsetError (List Diagnostic) :=
  (judgements.filterMap (Judgement.report? level fileName (.ofText text))).mapM id

/-- The result for a source with the given number of nodes and the given judgements on them, or
the first misplaced finding. -/
def LintResult.reference (level : RuleInfo → Level) (fileName text : String) (visited : Nat)
    (judgements : List Judgement) : Except Text.OffsetError LintResult :=
  (Diagnostic.reference level fileName text judgements).map fun diagnostics =>
    ⟨fileName, text, diagnostics, .reference level visited judgements⟩

section Gathering

variable {ε α : Type}

/-- Gathering succeeds exactly on a list of successes. -/
theorem mapM_id_eq_ok_iff {reports : List (Except ε α)} {values : List α} :
    reports.mapM id = .ok values ↔ reports = values.map .ok := by
  induction reports generalizing values with
  | nil => cases values <;> simp [pure, Except.pure]
  | cons report rest ih =>
    rw [List.mapM_cons]
    cases report with
    | error e => cases values <;> simp [bind, Except.bind]
    | ok value =>
      cases hrest : rest.mapM id with
      | error e => cases values <;> simp [bind, Except.bind, ← ih, hrest]
      | ok found => cases values <;> simp [bind, Except.bind, pure, Except.pure, ← ih, hrest]

/-- Gathering succeeds exactly when every item is a success. -/
theorem exists_mapM_id_eq_ok_iff {reports : List (Except ε α)} :
    (∃ values, reports.mapM id = .ok values) ↔ ∀ report ∈ reports, ∃ value, report = .ok value := by
  simp only [mapM_id_eq_ok_iff]
  constructor
  · intro h report hreport
    obtain ⟨values, rfl⟩ := h
    obtain ⟨value, _, rfl⟩ := List.mem_map.mp hreport
    exact ⟨value, rfl⟩
  · intro h
    induction reports with
    | nil => exact ⟨[], rfl⟩
    | cons report rest ih =>
      obtain ⟨value, rfl⟩ := h report List.mem_cons_self
      obtain ⟨values, rfl⟩ := ih fun report hreport => h report (List.mem_cons_of_mem _ hreport)
      exact ⟨value :: values, rfl⟩

/-- A failure among the first items stays the first failure when items are added. -/
theorem mapM_id_append_of_error {reports : List (Except ε α)} {e : ε}
    (h : reports.mapM id = .error e) (more : List (Except ε α)) :
    (reports ++ more).mapM id = .error e := by
  rw [List.mapM_append, h]
  rfl

end Gathering

namespace LintResult

variable {level : RuleInfo → Level} {fileName text : String} {visited : Nat}
  {judgements : List Judgement}

/-- The computed result holds the reports of all judgements, each of them placed. -/
theorem reference_eq_ok_iff {result : LintResult} :
    reference level fileName text visited judgements = .ok result ↔
      judgements.filterMap (Judgement.report? level fileName (.ofText text)) =
        result.diagnostics.map .ok ∧
      result = ⟨fileName, text, result.diagnostics, .reference level visited judgements⟩ := by
  rw [← mapM_id_eq_ok_iff]
  change (Diagnostic.reference level fileName text judgements).map _ = _ ↔
    Diagnostic.reference level fileName text judgements = _ ∧ _
  cases Diagnostic.reference level fileName text judgements with
  | error e => simp [Except.map]
  | ok diagnostics =>
    simp only [Except.map, Except.ok.injEq]
    constructor
    · intro h
      subst h
      exact ⟨rfl, rfl⟩
    · intro h
      rw [h.1]
      exact h.2.symm

/-- The computed result exists exactly when no finding is misplaced. -/
theorem exists_reference_eq_ok_iff :
    (∃ result, reference level fileName text visited judgements = .ok result) ↔
      ∀ judgement ∈ judgements, ∀ e,
        judgement.report? level fileName (.ofText text) ≠ some (.error e) := by
  constructor
  · intro h judgement hmem e he
    obtain ⟨result, hresult⟩ := h
    have hreport := List.mem_filterMap.mpr ⟨judgement, hmem, he⟩
    rw [(reference_eq_ok_iff.mp hresult).1] at hreport
    obtain ⟨diagnostic, _, hok⟩ := List.mem_map.mp hreport
    cases hok
  · intro h
    have hplaced : ∀ report ∈ judgements.filterMap
        (Judgement.report? level fileName (.ofText text)),
        ∃ diagnostic, report = .ok diagnostic := by
      intro report hreport
      obtain ⟨judgement, hmem, hsome⟩ := List.mem_filterMap.mp hreport
      cases report with
      | ok diagnostic => exact ⟨diagnostic, rfl⟩
      | error e => exact absurd hsome (h judgement hmem e)
    obtain ⟨diagnostics, hdiagnostics⟩ := exists_mapM_id_eq_ok_iff.mpr hplaced
    refine ⟨⟨fileName, text, diagnostics, _⟩, reference_eq_ok_iff.mpr ⟨?_, rfl⟩⟩
    exact mapM_id_eq_ok_iff.mp hdiagnostics

end LintResult

end TreeLint
