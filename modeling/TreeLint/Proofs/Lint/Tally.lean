import TreeLint.Proofs.Lint.Reference
import TreeLint.Proofs.Rule.Registry
import TreeLint.Proofs.Tree.Walk

/-!
# What a tally holds

A run adds to its tally rule by rule and node by node. After each rule the tally accounts for the
judgements made so far, unless the last of them is a misplaced finding; this is kept from rule to
rule and from node to node, whatever the nodes are.
-/

namespace TreeLint

namespace RunContext

/-- The diagnostic of a judgement in a run. -/
def report? (ctx : RunContext) : Judgement → Option (Except Text.OffsetError Diagnostic) :=
  Judgement.report? ctx.config.level ctx.fileName ctx.lines

/-- What a tally holds after the given number of nodes and the given judgements, none of them a
misplaced finding. -/
structure Accounts (ctx : RunContext) (visited : Nat) (done : List Judgement) (tally : Tally) :
    Prop where
  nodesVisited : tally.nodesVisited = visited
  rulesEvaluated : tally.rulesEvaluated = done.length
  findings : tally.findings = done.countP Judgement.isFound
  suppressed : tally.suppressed = done.countP (Judgement.isSuppressed ctx.config.level)
  failures : tally.failures.toList = done.filterMap Judgement.failure?
  diagnostics : tally.diagnostics.toList.map .ok = done.filterMap ctx.report?

/-- What is left after some judgements: a tally that accounts for them, or their first misplaced
finding. -/
def Tells (ctx : RunContext) (visited : Nat) (judgements : List Judgement) :
    Tally × Option Text.OffsetError → Prop
  | (tally, none) => ctx.Accounts visited judgements tally
  | (_, some e) => (judgements.filterMap ctx.report?).mapM id = .error e

/-- A misplaced finding ends a run, whatever would come after it. -/
theorem Tells.append_of_error {ctx : RunContext} {visited : Nat} {judgements : List Judgement}
    {tally : Tally} {e : Text.OffsetError} (h : ctx.Tells visited judgements (tally, some e))
    (after : Nat) (more : List Judgement) :
    ctx.Tells after (judgements ++ more) (tally, some e) := by
  change ((judgements ++ more).filterMap ctx.report?).mapM id = .error e
  rw [List.filterMap_append]
  exact mapM_id_append_of_error h _

/-- An unenforced level has no severity; an enforced one is an error exactly when it denies. -/
theorem severity?_eq (level : Level) :
    level.severity? = if level = .allow then none
      else some (if level = .deny then .error else .warning) := by
  cases level <;> rfl

/-- Exactly an unenforced level has no severity. -/
theorem severity?_eq_none_iff {level : Level} : level.severity? = none ↔ level = .allow := by
  cases level <;> decide

/-- The diagnostic of a finding that has a severity is the finding placed with that severity. -/
theorem report?_eq_place {ctx : RunContext} {vertex : Vertex} {rule : Rule} {finding : Finding}
    {severity : Severity}
    (hverdict : (rule.check vertex).eval ctx.resolve = .ok (some finding))
    (hseverity : (ctx.config.level rule.info).severity? = some severity) :
    ctx.report? (Inspection.judge ctx.resolve ⟨vertex, rule⟩) =
      some (ctx.place rule vertex.node finding severity) := by
  have hfinding : (Inspection.judge ctx.resolve ⟨vertex, rule⟩).finding? = some finding := by
    rw [Judgement.finding?, Inspection.judge, hverdict]
  rw [severity?_eq] at hseverity
  split at hseverity
  · cases hseverity
  · next hlevel =>
    cases hseverity
    rw [report?, Judgement.report?, hfinding]
    simp only [Inspection.judge, hlevel, if_false, place, Diagnostic.place]
    cases ctx.lines.position vertex.node.start <;> rfl

/-- A tally that gained what one judgement contributes accounts for it too. -/
theorem Accounts.snoc {ctx : RunContext} {visited : Nat} {done : List Judgement}
    {tally next : Tally} {judgement : Judgement} (h : ctx.Accounts visited done tally)
    (hvisited : next.nodesVisited = tally.nodesVisited)
    (hevaluated : next.rulesEvaluated = tally.rulesEvaluated + 1)
    (hfindings : next.findings = tally.findings + [judgement].countP Judgement.isFound)
    (hsuppressed : next.suppressed =
      tally.suppressed + [judgement].countP (Judgement.isSuppressed ctx.config.level))
    (hfailures : next.failures.toList = tally.failures.toList ++ judgement.failure?.toList)
    (hdiagnostics : next.diagnostics.toList.map .ok =
      tally.diagnostics.toList.map .ok ++ (ctx.report? judgement).toList) :
    ctx.Accounts visited (done ++ [judgement]) next where
  nodesVisited := by rw [hvisited, h.nodesVisited]
  rulesEvaluated := by rw [hevaluated, h.rulesEvaluated, List.length_append, List.length_singleton]
  findings := by rw [hfindings, h.findings, List.countP_append]
  suppressed := by rw [hsuppressed, h.suppressed, List.countP_append]
  failures := by
    rw [hfailures, h.failures, List.filterMap_append]
    cases hfailure : judgement.failure? <;> simp [hfailure]
  diagnostics := by
    rw [hdiagnostics, h.diagnostics, List.filterMap_append]
    cases hreport : ctx.report? judgement <;> simp [hreport]

section Record

variable {ctx : RunContext} {visited : Nat} {done : List Judgement} {tally : Tally}
  {vertex : Vertex} {rule : Rule}

/-- The tally with which a rule is evaluated: one more rule, and the vertices that it asks about. -/
def evaluating (ctx : RunContext) (vertex : Vertex) (tally : Tally) (rule : Rule) : Tally :=
  { tally with
    rulesEvaluated := tally.rulesEvaluated + 1
    asked := tally.asked ++ (rule.check vertex).asked ctx.resolve }

/-- Recording a failure adds it to the account. -/
theorem Accounts.record_error (h : ctx.Accounts visited done tally) {fault : Fault}
    (hverdict : (rule.check vertex).eval ctx.resolve = .error fault) :
    ctx.Tells visited (done ++ [Inspection.judge ctx.resolve ⟨vertex, rule⟩])
      (ctx.record rule vertex.node (ctx.evaluating vertex tally rule) (.error fault)) := by
  have hfinding : (Inspection.judge ctx.resolve ⟨vertex, rule⟩).finding? = none := by
    rw [Judgement.finding?, Inspection.judge, hverdict]
  have hfailure : (Inspection.judge ctx.resolve ⟨vertex, rule⟩).failure? =
      some ⟨rule.info.code, vertex.node.kind, vertex.node.start, fault.summary⟩ := by
    rw [Judgement.failure?, Inspection.judge, hverdict]
  refine h.snoc rfl rfl ?_ ?_ ?_ ?_
  · simp [Judgement.isFound, hfinding, evaluating]
  · simp [Judgement.isSuppressed, Judgement.isFound, hfinding, evaluating]
  · simp [hfailure, evaluating]
  · simp [RunContext.report?, Judgement.report?, hfinding, evaluating]

/-- Recording that there is no finding adds only to the count of rules. -/
theorem Accounts.record_none (h : ctx.Accounts visited done tally)
    (hverdict : (rule.check vertex).eval ctx.resolve = .ok none) :
    ctx.Tells visited (done ++ [Inspection.judge ctx.resolve ⟨vertex, rule⟩])
      (ctx.record rule vertex.node (ctx.evaluating vertex tally rule) (.ok none)) := by
  have hfinding : (Inspection.judge ctx.resolve ⟨vertex, rule⟩).finding? = none := by
    rw [Judgement.finding?, Inspection.judge, hverdict]
  have hfailure : (Inspection.judge ctx.resolve ⟨vertex, rule⟩).failure? = none := by
    rw [Judgement.failure?, Inspection.judge, hverdict]
  refine h.snoc rfl rfl ?_ ?_ ?_ ?_
  · simp [Judgement.isFound, hfinding, evaluating]
  · simp [Judgement.isSuppressed, Judgement.isFound, hfinding, evaluating]
  · simp [hfailure, evaluating]
  · simp [RunContext.report?, Judgement.report?, hfinding, evaluating]

/-- Recording a finding adds it to the account: as suppressed where its rule is not enforced, as a
diagnostic where it can be placed, and else as the end of the run. -/
theorem Accounts.record_some (h : ctx.Accounts visited done tally) {finding : Finding}
    (hverdict : (rule.check vertex).eval ctx.resolve = .ok (some finding)) :
    ctx.Tells visited (done ++ [Inspection.judge ctx.resolve ⟨vertex, rule⟩])
      (ctx.record rule vertex.node (ctx.evaluating vertex tally rule) (.ok (some finding))) := by
  have hfinding : (Inspection.judge ctx.resolve ⟨vertex, rule⟩).finding? = some finding := by
    rw [Judgement.finding?, Inspection.judge, hverdict]
  have hfound : (Inspection.judge ctx.resolve ⟨vertex, rule⟩).isFound = true := by
    rw [Judgement.isFound, hfinding, Option.isSome_some]
  have hfailure : (Inspection.judge ctx.resolve ⟨vertex, rule⟩).failure? = none := by
    rw [Judgement.failure?, Inspection.judge, hverdict]
  have hinfo : (Inspection.judge ctx.resolve ⟨vertex, rule⟩).info = rule.info := rfl
  cases hseverity : (ctx.config.level rule.info).severity? with
  | none =>
    have hallow := severity?_eq_none_iff.mp hseverity
    simp only [record, hseverity]
    refine h.snoc rfl rfl ?_ ?_ ?_ ?_
    · simp [hfound, evaluating]
    · simp [Judgement.isSuppressed, hfound, hinfo, hallow, evaluating]
    · simp [hfailure, evaluating]
    · simp [RunContext.report?, Judgement.report?, hfinding, hinfo, hallow, evaluating]
  | some severity =>
    have henforced : ctx.config.level rule.info ≠ .allow := by
      intro hallow
      cases hseverity.symm.trans (severity?_eq_none_iff.mpr hallow)
    have hreport := report?_eq_place hverdict hseverity
    simp only [record, hseverity]
    cases hplace : ctx.place rule vertex.node finding severity with
    | ok diagnostic =>
      refine h.snoc rfl rfl ?_ ?_ ?_ ?_
      · simp [hfound, evaluating]
      · simp [Judgement.isSuppressed, hinfo, henforced, evaluating]
      · simp [hfailure, evaluating]
      · simp [hreport, hplace, evaluating]
    | error e =>
      change (List.filterMap ctx.report? (done ++ [_])).mapM id = .error e
      rw [List.filterMap_append, ← h.diagnostics]
      simp [hreport, hplace, List.mapM_append, mapM_id_eq_ok_iff.mpr rfl]
      rfl

/-- Evaluating a rule on a node adds its judgement to the account, or finds its finding
misplaced. -/
theorem Accounts.evaluate (h : ctx.Accounts visited done tally) (vertex : Vertex) (rule : Rule) :
    ctx.Tells visited (done ++ [Inspection.judge ctx.resolve ⟨vertex, rule⟩])
      (ctx.evaluate vertex tally rule) := by
  change ctx.Tells visited _ (ctx.record rule vertex.node (ctx.evaluating vertex tally rule)
    ((rule.check vertex).eval ctx.resolve))
  cases hverdict : (rule.check vertex).eval ctx.resolve with
  | error fault => exact h.record_error hverdict
  | ok found =>
    cases found with
    | none => exact h.record_none hverdict
    | some finding => exact h.record_some hverdict

end Record

/-- Evaluating rules on a node one after the other adds their judgements to the account, up to
the first misplaced finding. -/
theorem Accounts.evaluateAll {ctx : RunContext} {visited : Nat} {done : List Judgement}
    {tally : Tally} (h : ctx.Accounts visited done tally) (vertex : Vertex) (rules : List Rule) :
    ctx.Tells visited (done ++ rules.map fun rule => Inspection.judge ctx.resolve ⟨vertex, rule⟩)
      (ctx.evaluateAll vertex tally rules) := by
  induction rules generalizing done tally with
  | nil =>
    rw [List.map_nil, List.append_nil]
    exact h
  | cons rule rest ih =>
    have hstep := h.evaluate vertex rule
    rw [List.map_cons, List.append_cons, RunContext.evaluateAll]
    rcases hnext : ctx.evaluate vertex tally rule with ⟨next, _ | e⟩
    · rw [hnext] at hstep
      exact ih hstep
    · rw [hnext] at hstep
      exact hstep.append_of_error visited _

/-- Visiting a node adds the node and the judgements on it to the account. -/
theorem Accounts.visit {ctx : RunContext} (hregistry : ctx.registry.Consistent) {visited : Nat}
    {done : List Judgement} {tally : Tally} (h : ctx.Accounts visited done tally)
    (vertex : Vertex) :
    ctx.Tells (visited + 1) (done ++ Judgement.all ctx.resolve ctx.registry.rules [vertex])
      (ctx.visit tally vertex) := by
  have hcounted : ctx.Accounts (visited + 1) done
      { tally with nodesVisited := tally.nodesVisited + 1 } :=
    { h with nodesVisited := congrArg (· + 1) h.nodesVisited }
  rw [Judgement.all, Inspection.all, List.flatMap_singleton, List.map_map,
    ← hregistry.rulesFor_eq]
  exact hcounted.evaluateAll vertex _

/-- Visiting nodes one after the other adds them and the judgements on them to the account, up to
the first misplaced finding. -/
theorem Accounts.visitAll {ctx : RunContext} (hregistry : ctx.registry.Consistent) {visited : Nat}
    {done : List Judgement} {tally : Tally} (h : ctx.Accounts visited done tally)
    (vertices : List Vertex) :
    ctx.Tells (visited + vertices.length)
      (done ++ Judgement.all ctx.resolve ctx.registry.rules vertices)
      (TreeLint.visitAll ctx.visit tally vertices) := by
  induction vertices generalizing visited done tally with
  | nil =>
    rw [Judgement.all, Inspection.all, List.flatMap_nil, List.map_nil, List.append_nil]
    exact h
  | cons vertex rest ih =>
    have hstep := h.visit hregistry vertex
    rw [Judgement.all_cons, ← List.append_assoc, List.length_cons, Nat.add_comm rest.length,
      ← Nat.add_assoc, TreeLint.visitAll]
    rcases hnext : ctx.visit tally vertex with ⟨next, _ | e⟩
    · rw [hnext] at hstep
      exact ih hstep
    · rw [hnext] at hstep
      exact hstep.append_of_error _ _

/-- The tally at the start accounts for nothing. -/
theorem accounts_empty (ctx : RunContext) : ctx.Accounts 0 [] {} :=
  ⟨rfl, rfl, rfl, rfl, rfl, rfl⟩

end RunContext

end TreeLint
