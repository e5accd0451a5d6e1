import TreeLint.Proofs.Lint.Run

/-!
# Pairs that a run evaluates

A run over a source goes through the pairs of nodes met and rules that inspect them, up to the
first misplaced finding. Its result holds the reports and the failures of all pairs in order, and
it returns exactly when no pair is misplaced. Each report carries the code of its rule.
-/

namespace TreeLint

namespace Judgement

variable {judgement : Judgement} {level : RuleInfo → Level} {fileName : String}
  {lines : Text.LineMap}

/-- The report of a judgement depends on the levels only through the level of its rule. -/
theorem report?_congr {other : RuleInfo → Level} (h : level judgement.info = other judgement.info) :
    judgement.report? level fileName lines = judgement.report? other fileName lines := by
  unfold report?
  rw [h]

/-- A diagnostic stands at the position where the node starts, and carries the code of the rule. -/
theorem position_of_report? {diagnostic : Diagnostic}
    (h : judgement.report? level fileName lines = some (.ok diagnostic)) :
    ∃ position, lines.position judgement.start = .ok position ∧
      diagnostic.line = position.line ∧ diagnostic.column = position.column ∧
      diagnostic.code = judgement.info.code := by
  unfold report? at h
  split at h
  · cases h
  · split at h
    · cases h
    · cases hposition : lines.position judgement.start with
      | error e => simp [hposition, Except.map] at h
      | ok position =>
        simp only [hposition, Except.map, Option.some.injEq, Except.ok.injEq] at h
        subst h
        exact ⟨position, rfl, rfl, rfl, rfl⟩

/-- A diagnostic carries the code of the rule that it comes from. -/
theorem code_of_report? {diagnostic : Diagnostic}
    (h : judgement.report? level fileName lines = some (.ok diagnostic)) :
    diagnostic.code = judgement.info.code := by
  obtain ⟨_, _, _, _, hcode⟩ := position_of_report? h
  exact hcode

/-- A failure carries the code of the rule that it comes from. -/
theorem code_of_failure? {failure : RuleFailure} (h : judgement.failure? = some failure) :
    failure.code = judgement.info.code := by
  unfold failure? at h
  split at h
  · cases h
  · cases h
    rfl

/-- A failure, and a finding of a rule that is not enforced, has no diagnostic. -/
theorem report?_eq_none
    (h : (∃ fault, judgement.verdict = .error fault) ∨ level judgement.info = .allow) :
    judgement.report? level fileName lines = none := by
  unfold report? finding?
  rcases h with ⟨fault, hfault⟩ | hallow
  · rw [hfault]
  · split
    · rfl
    · rw [if_pos hallow]

end Judgement

/-- The rule of a pair is one of the given rules. -/
theorem Inspection.rule_mem_of_mem_all {rules : List Rule} {vertices : List Vertex}
    {pair : Inspection} (h : pair ∈ all rules vertices) : pair.rule ∈ rules := by
  obtain ⟨vertex, _, hpair⟩ := List.mem_flatMap.mp h
  obtain ⟨rule, hrule, rfl⟩ := List.mem_map.mp hpair
  exact (List.mem_filter.mp hrule).1

namespace Linter

variable {linter : Linter} {source : Source} {resolver : Option Types.Resolver}

/-- The pairs that a run over a source goes through, as far as it comes. -/
def inspections (linter : Linter) (source : Source) : List Inspection :=
  Inspection.all linter.registry.rules
    ((source.graph.trace source.root).1.map source.graph.vertex)

/-- The diagnostic of a pair in a run over a source. -/
def reportIn? (linter : Linter) (source : Source) (resolve : Types.Resolver) (pair : Inspection) :
    Option (Except Text.OffsetError Diagnostic) :=
  (pair.judge resolve).report? (linter.config.levelFor linter.registry source.text)
    source.fileName (.ofText source.text)

/-- Whether a run over a source evaluates a rule at a vertex: its root is in order, and no pair
before has a misplaced finding. -/
def Applies (linter : Linter) (source : Source) (resolve : Types.Resolver) (rule : Rule)
    (vertex : Vertex) : Prop :=
  checkRoot source = .ok () ∧ ∃ before after,
    linter.inspections source = before ++ ⟨vertex, rule⟩ :: after ∧
    ∀ pair ∈ before, ∀ e, linter.reportIn? source resolve pair ≠ some (.error e)

/-- A result of a run holds the reports and failures of all its pairs. -/
theorem reports_of_run (hregistry : linter.registry.Consistent) {result : LintResult}
    (h : (linter.run source resolver).outcome = .ok result) :
    ∃ resolve, resolver.or linter.resolver = some resolve ∧ checkRoot source = .ok () ∧
      (linter.inspections source).filterMap (linter.reportIn? source resolve) =
        result.diagnostics.map .ok ∧
      result.stats.failures =
        (linter.inspections source).filterMap (fun pair => (pair.judge resolve).failure?) ∧
      result.stats.nodesVisited = (source.graph.trace source.root).1.length := by
  obtain ⟨resolve, hresolve, hroot, _, hresult⟩ := (run_outcome_eq_ok_iff hregistry).mp h
  obtain ⟨hreports, hfields⟩ := LintResult.reference_eq_ok_iff.mp hresult
  rw [Judgement.all, List.filterMap_map] at hreports
  refine ⟨resolve, hresolve, hroot, hreports, ?_, ?_⟩
  · rw [hfields]
    exact List.filterMap_map
  · rw [hfields]
    exact List.length_map ..

/-- The result of a run has the text of its source, and each diagnostic stands at a position of
this text. -/
theorem placed_of_run (hregistry : linter.registry.Consistent) {result : LintResult}
    (h : (linter.run source resolver).outcome = .ok result) :
    result.text = source.text ∧ ∀ d ∈ result.diagnostics, ∃ offset position,
      (Text.LineMap.ofText source.text).position offset = .ok position ∧
        d.line = position.line ∧ d.column = position.column := by
  obtain ⟨resolve, _, _, _, hresult⟩ := (run_outcome_eq_ok_iff hregistry).mp h
  obtain ⟨hreports, hfields⟩ := LintResult.reference_eq_ok_iff.mp hresult
  refine ⟨by rw [hfields], fun d hd => ?_⟩
  have hok : Except.ok d ∈ result.diagnostics.map (Except.ok (ε := Text.OffsetError)) :=
    List.mem_map_of_mem hd
  rw [← hreports] at hok
  obtain ⟨judgement, _, hreport⟩ := List.mem_filterMap.mp hok
  obtain ⟨position, hposition, hline, hcolumn, _⟩ := Judgement.position_of_report? hreport
  exact ⟨judgement.start, position, hposition, hline, hcolumn⟩

/-- A run returns exactly when it has a resolver, its root is in order, its walk finds no defect,
and no pair has a misplaced finding. -/
theorem exists_run_iff (hregistry : linter.registry.Consistent) :
    (∃ result, (linter.run source resolver).outcome = .ok result) ↔
      ∃ resolve, resolver.or linter.resolver = some resolve ∧ checkRoot source = .ok () ∧
        (source.graph.trace source.root).2 = none ∧
        ∀ pair ∈ linter.inspections source, ∀ e,
          linter.reportIn? source resolve pair ≠ some (.error e) := by
  simp only [run_outcome_eq_ok_iff hregistry, reference]
  rw [exists_comm]
  simp only [exists_and_left, LintResult.exists_reference_eq_ok_iff, Judgement.all,
    List.forall_mem_map]
  rfl

end Linter

end TreeLint
