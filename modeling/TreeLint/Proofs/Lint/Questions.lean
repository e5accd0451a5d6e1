import TreeLint.Proofs.Lint.Run
import TreeLint.Proofs.Rule.Catalog

/-!
# What a run asks its resolver

A run keeps the vertices whose types its rules ask for, in order. Two things are proved about them
for any rules and any graph: a walk that comes to its end has asked what each rule asks about each
node, and a run sees its resolver only through the answers to its questions. Both go from a rule to
the rules for a node and from a node to all nodes, by the same two lemmas on visitors.

The reference rules ask about variables only: about one with an annotation, and about one whose name
mentions a type. Resolvers that agree on these questions therefore lead to the same run.
-/

namespace TreeLint

section Visitors

variable {ι ε : Type} {visit other : Tally → ι → Tally × Option ε}

/-- Unless it refuses an item, a visitor adds given questions about it to those asked before. -/
def Asks (questions : ι → List Vertex) (visit : Tally → ι → Tally × Option ε) : Prop :=
  ∀ tally item, (visit tally item).2 = none →
    (visit tally item).1.asked.toList = tally.asked.toList ++ questions item

/-- A visitor that refuses no item has asked its questions about all of them in order. -/
theorem Asks.visitAll {questions : ι → List Vertex} (h : Asks questions visit) :
    Asks (List.flatMap questions) (TreeLint.visitAll visit) := by
  intro tally items hnone
  induction items generalizing tally with
  | nil => rw [TreeLint.visitAll, List.flatMap_nil, List.append_nil]
  | cons item rest ih =>
    have hitem := h tally item
    rw [TreeLint.visitAll] at hnone ⊢
    rcases hvisit : visit tally item with ⟨next, _ | e⟩
    · rw [hvisit] at hitem hnone
      change (TreeLint.visitAll visit next rest).1.asked.toList = _
      rw [ih next hnone, hitem rfl, List.flatMap_cons, List.append_assoc]
    · rw [hvisit] at hnone
      cases hnone

/-- One visitor does the same as another that only ever adds to its questions, wherever the answers
to these questions are as they should be. -/
structure SeesAnswers (isAnswered : Vertex → Prop) (visit other : Tally → ι → Tally × Option ε) :
    Prop where
  grows : ∀ tally item, tally.asked.toList <+: (visit tally item).1.asked.toList
  same : ∀ tally item, (∀ vertex ∈ (visit tally item).1.asked.toList, isAnswered vertex) →
    other tally item = visit tally item

/-- What visitors share on single items they share on lists of items. -/
theorem SeesAnswers.visitAll {isAnswered : Vertex → Prop} (h : SeesAnswers isAnswered visit other) :
    SeesAnswers isAnswered (TreeLint.visitAll visit) (TreeLint.visitAll other) := by
  have hgrows : ∀ tally items,
      tally.asked.toList <+: (TreeLint.visitAll visit tally items).1.asked.toList := by
    intro tally items
    induction items generalizing tally with
    | nil => exact List.prefix_refl _
    | cons item rest ih =>
      have hitem := h.grows tally item
      rw [TreeLint.visitAll]
      rcases hvisit : visit tally item with ⟨next, _ | e⟩
      · rw [hvisit] at hitem
        exact hitem.trans (ih next)
      · rw [hvisit] at hitem
        exact hitem
  refine ⟨hgrows, fun tally items hanswered => ?_⟩
  induction items generalizing tally with
  | nil => rfl
  | cons item rest ih =>
    have hitem := h.same tally item
    rw [TreeLint.visitAll] at hanswered ⊢
    rw [TreeLint.visitAll]
    rcases hvisit : visit tally item with ⟨next, _ | e⟩
    · rw [hvisit] at hitem hanswered
      -- The questions about the first item are still there at the end.
      rw [hitem fun vertex hvertex =>
        hanswered vertex ((hgrows next rest).subset hvertex)]
      exact ih next hanswered
    · rw [hvisit] at hitem hanswered
      rw [hitem hanswered]

end Visitors

namespace RunContext

variable (ctx : RunContext)

/-- The same run with another resolver. -/
def answeredBy (other : Types.Resolver) : RunContext :=
  { ctx with resolve := other }

/-- Recording a verdict asks nothing. -/
theorem asked_record (rule : Rule) (node : Node) (tally : Tally) (verdict : Verdict) :
    (ctx.record rule node tally verdict).1.asked = tally.asked := by
  cases verdict with
  | error fault => rfl
  | ok found =>
    cases found with
    | none => rfl
    | some finding =>
      rw [record]
      split
      · rfl
      · split <;> rfl

/-- Evaluating a rule asks what its check asks. -/
theorem asked_evaluate (vertex : Vertex) (tally : Tally) (rule : Rule) :
    (ctx.evaluate vertex tally rule).1.asked.toList =
      tally.asked.toList ++ (rule.check vertex).asked ctx.resolve := by
  rw [evaluate, asked_record]
  simp

/-- Evaluating rules is visiting them. -/
theorem evaluateAll_eq_visitAll (vertex : Vertex) (tally : Tally) (rules : List Rule) :
    ctx.evaluateAll vertex tally rules = visitAll (ctx.evaluate vertex) tally rules := by
  induction rules generalizing tally with
  | nil => rfl
  | cons rule rest ih =>
    rw [evaluateAll, visitAll]
    rcases ctx.evaluate vertex tally rule with ⟨next, _ | e⟩
    · exact ih next
    · rfl

/-- What the rules for the kind of a node ask about it, one after the other. -/
def questions (vertex : Vertex) : List Vertex :=
  (ctx.registry.rulesFor vertex.node.kind).flatMap fun rule => (rule.check vertex).asked ctx.resolve

/-- A visit asks what the rules for the kind of the node ask. -/
theorem asks_visit : Asks ctx.questions ctx.visit := by
  intro tally vertex hnone
  have hrules : Asks (fun rule => (rule.check vertex).asked ctx.resolve) (ctx.evaluate vertex) :=
    fun tally rule _ => ctx.asked_evaluate vertex tally rule
  rw [visit, evaluateAll_eq_visitAll] at hnone ⊢
  exact hrules.visitAll _ _ hnone

/-- Evaluating a rule sees a resolver only through the answers to the questions of the rule. -/
theorem seesAnswers_evaluate (other : Types.Resolver) (vertex : Vertex) :
    SeesAnswers (fun asked => other asked = ctx.resolve asked) (ctx.evaluate vertex)
      ((ctx.answeredBy other).evaluate vertex) := by
  refine ⟨fun tally rule => ?_, fun tally rule hanswered => ?_⟩
  · rw [asked_evaluate]
    exact List.prefix_append _ _
  · rw [asked_evaluate] at hanswered
    obtain ⟨heval, hasked⟩ := (rule.check vertex).eval_congr fun asked hmem =>
      hanswered asked (List.mem_append_right _ hmem)
    rw [evaluate, evaluate, answeredBy, heval, hasked]
    rfl

/-- A visit sees a resolver only through the answers to its questions. -/
theorem seesAnswers_visit (other : Types.Resolver) :
    SeesAnswers (fun asked => other asked = ctx.resolve asked) ctx.visit
      (ctx.answeredBy other).visit := by
  refine ⟨fun tally vertex => ?_, fun tally vertex hanswered => ?_⟩
  · rw [visit, evaluateAll_eq_visitAll]
    exact (ctx.seesAnswers_evaluate other vertex).visitAll.grows
      { tally with nodesVisited := tally.nodesVisited + 1 } _
  · rw [visit, evaluateAll_eq_visitAll] at hanswered ⊢
    rw [visit, evaluateAll_eq_visitAll]
    exact (ctx.seesAnswers_evaluate other vertex).visitAll.same _ _ hanswered

end RunContext

namespace Graph.Walked

variable {σ ε : Type} {count : Nat} {defect : Option Malformed} {visits : σ × Option ε}

/-- A walk ends in the state in which its visitor was left. -/
theorem state_ofVisits : (ofVisits count defect visits).state = visits.1 := by
  rcases visits with ⟨state, _ | reason⟩
  · cases defect <;> rfl
  · rfl

/-- A walk comes to its end only if its visitor refuses nothing and the graph has no defect. -/
theorem of_ofVisits_eq_ok {number : Nat} (h : (ofVisits count defect visits).outcome = .ok number) :
    visits.2 = none ∧ defect = none := by
  rcases visits with ⟨state, _ | reason⟩
  · cases defect with
    | none => exact ⟨rfl, rfl⟩
    | some defect => cases h
  · cases h

end Graph.Walked

namespace Linter

variable {linter : Linter} {source : Source} {resolve other : Types.Resolver}

/-- The vertices of a source in the order in which a walk meets them. -/
def verticesMet (source : Source) : List Vertex :=
  (source.graph.trace source.root).1.map source.graph.vertex

/-- The walk of a run visits the nodes in the order in which it meets them. -/
theorem walked_eq (linter : Linter) (source : Source) (resolve : Types.Resolver) :
    linter.walked source resolve =
      .ofVisits (source.graph.trace source.root).1.length (source.graph.trace source.root).2
        (visitAll (linter.context source resolve).visit {} (verticesMet source)) := by
  rw [walked, Graph.walk_eq_visitAll, verticesMet, visitAll_map]

/-- Two resolvers that answer the questions of a walk alike lead to the same walk. -/
theorem walked_of_same_answers
    (h : ∀ vertex ∈ (linter.walked source resolve).state.asked.toList,
      other vertex = resolve vertex) :
    linter.walked source other = linter.walked source resolve := by
  rw [walked_eq, Graph.Walked.state_ofVisits] at h
  have hsame := ((linter.context source resolve).seesAnswers_visit other).visitAll.same _ _ h
  rw [walked_eq, walked_eq, ← hsame]
  rfl

/-- The questions of a run are those of its walk. -/
theorem asked_runWalk (linter : Linter) (source : Source) (resolve : Types.Resolver) :
    (linter.runWalk source resolve).asked = (linter.walked source resolve).state.asked.toList := by
  simp only [runWalk]
  split <;> rfl

/-- A run is told from its walk. -/
theorem runWalk_congr (h : linter.walked source other = linter.walked source resolve) :
    linter.runWalk source other = linter.runWalk source resolve := by
  unfold walked context at h
  unfold runWalk
  generalize linter.configFor source = levels at h ⊢
  obtain ⟨config, notes⟩ := levels
  simp only at h ⊢
  rw [h]

/-- A run uses its own resolver, or else that of the linter. -/
theorem run_eq_of_or {resolver : Option Types.Resolver}
    (h : resolver.or linter.resolver = some resolve) :
    linter.run source resolver = linter.run source (some resolve) := by
  rw [run, run, h]
  rfl

/-- A run sees its resolver only through the answers to its questions: one that answers them alike
leads to the same outcome, the same notes and the same questions. -/
theorem run_of_same_answers
    (h : ∀ vertex ∈ (linter.run source (some resolve)).asked, other vertex = resolve vertex) :
    linter.run source (some other) = linter.run source (some resolve) := by
  unfold run at h ⊢
  simp only [Option.some_or] at h ⊢
  cases hroot : checkRoot source with
  | error e => rfl
  | ok _ =>
    simp only [hroot, asked_runWalk] at h
    exact runWalk_congr (walked_of_same_answers h)

/-- A run that gives a result has asked what the rules for each node ask, in the order of the nodes
met, and has met a tree. -/
theorem asked_of_run {resolver : Option Types.Resolver} {result : LintResult}
    (h : (linter.run source resolver).outcome = .ok result) :
    ∃ resolve, resolver.or linter.resolver = some resolve ∧ checkRoot source = .ok () ∧
      (source.graph.trace source.root).2 = none ∧
      (linter.run source resolver).asked =
        (verticesMet source).flatMap (linter.context source resolve).questions := by
  unfold run at h ⊢
  cases hresolve : resolver.or linter.resolver with
  | none => simp [hresolve] at h
  | some resolve =>
    cases hroot : checkRoot source with
    | error e => simp [hresolve, hroot] at h
    | ok _ =>
      simp only [hresolve, hroot, runWalk_outcome_eq_walked] at h
      rcases houtcome : (linter.walked source resolve).outcome with (defect | e) | count
      · simp [houtcome] at h
      · simp [houtcome] at h
      · rw [walked_eq] at houtcome
        obtain ⟨hnone, hdefect⟩ := Graph.Walked.of_ofVisits_eq_ok houtcome
        have hasked := (linter.context source resolve).asks_visit.visitAll {} _ hnone
        refine ⟨resolve, rfl, rfl, hdefect, ?_⟩
        simp only [asked_runWalk, walked_eq, Graph.Walked.state_ofVisits, hasked]
        rfl

end Linter

namespace Check

/-- Reporting asks nothing. -/
theorem asked_report (info : RuleInfo) (args : List String) (resolve : Types.Resolver) :
    (report info args).asked resolve = [] := by
  unfold report
  cases info.finding args <;> rfl

/-- A check that needs one type asks once, also if there is none. -/
theorem asked_withType {resolve : Types.Resolver} {next : String → Check}
    (h : ∀ descriptor, (next descriptor).asked resolve = []) (vertex : Vertex) :
    (withType vertex next).asked resolve = [vertex] := by
  rw [withType, asked]
  cases resolve vertex with
  | ok descriptor => exact congrArg (vertex :: ·) (h descriptor)
  | error e => rfl

end Check

namespace Catalog

/-- What the reference rules ask about a node: once about a variable with an annotation, and once
about a variable whose name contains `type` in any letter case. -/
def questions (vertex : Vertex) : List Vertex :=
  if vertex.node.kind = .variableDeclaration then
    (if vertex.node.declared = none then [] else [vertex]) ++
      match vertex.node.name with
      | none => []
      | some name => if "type".toList <:+: Text.lowerCase name.toList then [vertex] else []
  else []

/-- The rule on return types asks nothing. -/
theorem asked_explicitReturnType (resolve : Types.Resolver) (vertex : Vertex) :
    (explicitReturnType.check vertex).asked resolve = [] := by
  simp only [explicitReturnType]
  split
  · exact Check.asked_report _ _ resolve
  · rfl

/-- The rule against `any` asks about annotated nodes. -/
theorem asked_noExplicitAny (resolve : Types.Resolver) (vertex : Vertex) :
    (noExplicitAny.check vertex).asked resolve =
      if vertex.node.declared = none then [] else [vertex] := by
  simp only [noExplicitAny, Option.isNone_iff_eq_none]
  split
  · rfl
  · apply Check.asked_withType
    intro descriptor
    split
    · exact Check.asked_report _ _ resolve
    · rfl

/-- The rule on names asks nothing. -/
theorem asked_camelCaseNaming (resolve : Types.Resolver) (vertex : Vertex) :
    (camelCaseNaming.check vertex).asked resolve = [] := by
  simp only [camelCaseNaming]
  cases vertex.node.name with
  | none => rfl
  | some name =>
    dsimp only
    split
    · rfl
    · exact Check.asked_report _ _ resolve

/-- The rule on names that mention a type asks about the nodes with such names. -/
theorem asked_preferEnum (resolve : Types.Resolver) (vertex : Vertex) :
    (preferEnum.check vertex).asked resolve =
      match vertex.node.name with
      | none => []
      | some name => if "type".toList <:+: Text.lowerCase name.toList then [vertex] else [] := by
  simp only [preferEnum]
  cases vertex.node.name with
  | none => rfl
  | some name =>
    simp only [Naming.mentionsType, Naming.hasType_iff]
    split
    · apply Check.asked_withType
      intro descriptor
      split
      · exact Check.asked_report _ _ resolve
      · rfl
    · rfl

/-- The rules for the kind of a node ask about it what the reference rules are said to ask. -/
theorem flatMap_asked_eq (resolve : Types.Resolver) (vertex : Vertex) :
    ((rules.filter (·.inspects vertex.node.kind)).flatMap fun rule =>
      (rule.check vertex).asked resolve) = questions vertex := by
  rw [filter_inspects, questions]
  split
  · next hfunction => simp [hfunction, asked_explicitReturnType]
  · next hvariable =>
    simp [hvariable, asked_noExplicitAny, asked_camelCaseNaming, asked_preferEnum]
  · next hvariable =>
    rw [if_neg hvariable]
    rfl

end Catalog

namespace Linter

/-- The questions of a run with the reference rules do not depend on the answers. -/
theorem questions_context_reference {linter : Linter}
    (hregistry : linter.registry = Registry.reference) (source : Source)
    (resolve : Types.Resolver) :
    (linter.context source resolve).questions = Catalog.questions := by
  funext vertex
  obtain ⟨hconsistent, hrules⟩ := Registry.consistent_reference
  rw [RunContext.questions, context, hregistry, hconsistent.rulesFor_eq, hrules,
    Catalog.flatMap_asked_eq]

/-- A run with the reference rules that gives a result has asked, over the nodes of its tree in
pre-order, once about each variable with an annotation and once about each variable whose name
contains `type`, and nothing else. Every resolver that answers these questions alike leads to the
same run: result, notes and questions. -/
theorem reference_run_asks_about_variables (config : Configuration)
    (own resolver : Option Types.Resolver) (source : Source) (result : LintResult)
    (h : (run { resolver := own, config := config } source resolver).outcome = .ok result) :
    ∃ resolve i nodes, resolver.or own = some resolve ∧ source.root = .node i ∧
      source.graph.InPreorder [i] nodes ∧ nodes.Nodup ∧
      (run { resolver := own, config := config } source resolver).asked =
        (nodes.map source.graph.vertex).flatMap Catalog.questions ∧
      ∀ other : Types.Resolver,
        (∀ vertex ∈ (nodes.map source.graph.vertex).flatMap Catalog.questions,
          other vertex = resolve vertex) →
        run { resolver := own, config := config } source (some other) =
          run { resolver := own, config := config } source resolver := by
  obtain ⟨resolve, hresolve, hroot, hdefect, hasked⟩ := asked_of_run h
  obtain ⟨i, hi, _⟩ := checkRoot_eq_ok_iff.mp hroot
  rw [questions_context_reference rfl, verticesMet] at hasked
  have htrace : source.graph.trace (.node i) = ((source.graph.trace source.root).1, none) := by
    rw [← hi]
    exact Prod.ext rfl hdefect
  obtain ⟨hpre, hnodup⟩ := Graph.trace_eq_iff.mp htrace
  refine ⟨resolve, i, _, hresolve, hi, hpre, hnodup, hasked, fun other hother => ?_⟩
  rw [run_eq_of_or hresolve] at hasked ⊢
  apply run_of_same_answers
  rwa [hasked]

/-- A resolver that knows the types of variables only. -/
def variablesOnly : Types.Resolver := fun vertex =>
  if vertex.node.kind = .variableDeclaration then Types.Resolver.declared vertex
  else .error (.other "LookupError" "not a variable")

/-- In a file with one annotated variable whose name mentions a type, the variable is asked about
twice. A resolver that fails on the node of the file leads to the same run. -/
theorem reference_run_asks_blankVariable :
    (run {} blankVariable (some .declared)).outcome = .ok blankVariableResult ∧
    (run {} blankVariable (some .declared)).asked =
      [blankVariable.graph.vertex (1 : Fin 2), blankVariable.graph.vertex (1 : Fin 2)] ∧
    run {} blankVariable (some variablesOnly) = run {} blankVariable (some .declared) := by
  have hrun : (run {} blankVariable (some .declared)).outcome = .ok blankVariableResult := by
    apply (run_outcome_eq_ok_iff Registry.consistent_reference.1).mpr
    rw [trace_blankVariable]
    exact ⟨.declared, rfl, rfl, rfl, reference_blankVariable⟩
  obtain ⟨resolve, i, nodes, hresolve, hi, hpre, hnodup, hasked, hsame⟩ :=
    reference_run_asks_about_variables {} none (some .declared) blankVariable _ hrun
  cases hresolve
  cases hi
  have htrace := Graph.trace_eq_iff.mpr ⟨hpre, hnodup⟩
  have hnodes : nodes = [(0 : Fin 2), (1 : Fin 2)] :=
    congrArg Prod.fst (htrace.symm.trans trace_blankVariable)
  have hquestions : (nodes.map blankVariable.graph.vertex).flatMap Catalog.questions =
      [blankVariable.graph.vertex (1 : Fin 2), blankVariable.graph.vertex (1 : Fin 2)] := by
    rw [hnodes]
    rfl
  refine ⟨hrun, hasked.trans hquestions, hsame variablesOnly ?_⟩
  rw [hquestions]
  simp only [List.mem_cons, List.not_mem_nil, or_false, or_self, forall_eq]
  rfl

end Linter

end TreeLint
