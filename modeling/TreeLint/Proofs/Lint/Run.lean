import TreeLint.Proofs.Lint.Tally

/-!
# Results of runs

A run over any source comes to the list computation on the nodes that its walk meets, and a defect
of the graph is reported only when no finding is misplaced. It gives a result exactly when it has a
resolver, the root of the source is a node for a whole file, the graph below the root is a tree, and
no finding of an enforced rule lies outside the text. The result is then the one computed from the
recursive pre-order of the tree.
-/

namespace TreeLint.Linter

/-- What stays the same during a run of a linter over a source. -/
def context (linter : Linter) (source : Source) (resolve : Types.Resolver) : RunContext :=
  ⟨linter.registry, (linter.configFor source).1, resolve, source.fileName, .ofText source.text⟩

/-- The levels that a run uses for a source. -/
theorem level_configFor (linter : Linter) (source : Source) :
    (linter.configFor source).1.level = linter.config.levelFor linter.registry source.text := by
  funext info
  unfold configFor Configuration.levelFor
  split <;> rfl

/-- The computed result for nodes of a source, with the rules and levels of a linter. -/
def reference (linter : Linter) (source : Source) (resolve : Types.Resolver)
    (vertices : List Vertex) : Except Text.OffsetError LintResult :=
  LintResult.reference (linter.config.levelFor linter.registry source.text) source.fileName
    source.text vertices.length (Judgement.all resolve linter.registry.rules vertices)

/-- A tally that accounts for all judgements on some nodes holds the computed result. -/
theorem reference_eq_ok {linter : Linter} {source : Source} {resolve : Types.Resolver}
    {vertices : List Vertex} {tally : Tally}
    (h : (linter.context source resolve).Accounts vertices.length
      (Judgement.all resolve linter.registry.rules vertices) tally) :
    linter.reference source resolve vertices = .ok (result source tally) := by
  unfold reference
  rw [← level_configFor]
  refine LintResult.reference_eq_ok_iff.mpr ⟨h.diagnostics.symm, ?_⟩
  simp only [result, Stats.reference]
  rw [h.nodesVisited, h.rulesEvaluated, h.findings, h.suppressed, h.failures]
  rfl

/-- The first misplaced finding on some nodes takes the place of the result. -/
theorem reference_eq_error {linter : Linter} {source : Source} {resolve : Types.Resolver}
    {vertices : List Vertex} {tally : Tally} {e : Text.OffsetError}
    (h : (linter.context source resolve).Tells vertices.length
      (Judgement.all resolve linter.registry.rules vertices) (tally, some e)) :
    linter.reference source resolve vertices = .error e := by
  have hmisplaced : Diagnostic.reference (linter.configFor source).1.level source.fileName
      source.text (Judgement.all resolve linter.registry.rules vertices) = .error e := h
  unfold reference LintResult.reference
  rw [← level_configFor, hmisplaced]
  rfl

/-- The walk of a run over a source. -/
def walked (linter : Linter) (source : Source) (resolve : Types.Resolver) :
    Graph.Walked Tally Text.OffsetError :=
  source.graph.walk source.root
    (fun tally i => (linter.context source resolve).visit tally (source.graph.vertex i)) {}

/-- The outcome of a run is read off the end of its walk. -/
theorem runWalk_outcome_eq_walked (linter : Linter) (source : Source) (resolve : Types.Resolver) :
    (linter.runWalk source resolve).outcome =
      match (linter.walked source resolve).outcome with
      | .ok _ => .ok (result source (linter.walked source resolve).state)
      | .error (.malformed defect) => .error (.malformed defect)
      | .error (.visitor e) => .error (.position e) := by
  change (match (linter.walked source resolve).outcome with
    | .ok _ => (⟨.ok (result source (linter.walked source resolve).state), _, _⟩ : Run)
    | .error (.malformed defect) => ⟨.error (.malformed defect), _, _⟩
    | .error (.visitor e) => ⟨.error (.position e), _, _⟩).outcome = _
  rcases (linter.walked source resolve).outcome with (defect | e) | count <;> rfl

/-- A walk over a source whose root is in order comes to the computed result on the nodes met; a
misplaced finding counts before a defect of the graph. -/
theorem runWalk_outcome {linter : Linter} (hregistry : linter.registry.Consistent)
    (source : Source) (resolve : Types.Resolver) :
    (linter.runWalk source resolve).outcome =
      match linter.reference source resolve
        ((source.graph.trace source.root).1.map source.graph.vertex) with
      | .error e => .error (.position e)
      | .ok result =>
        match (source.graph.trace source.root).2 with
        | some defect => .error (.malformed defect)
        | none => .ok result := by
  have htells := ((linter.context source resolve).accounts_empty).visitAll hregistry
    ((source.graph.trace source.root).1.map source.graph.vertex)
  rw [Nat.zero_add, List.nil_append] at htells
  rw [runWalk_outcome_eq_walked, walked, Graph.walk_eq_visitAll, ← visitAll_map]
  rcases hvisits : visitAll (linter.context source resolve).visit {}
    ((source.graph.trace source.root).1.map source.graph.vertex) with ⟨tally, _ | e⟩
  · rw [hvisits] at htells
    rw [reference_eq_ok htells]
    cases (source.graph.trace source.root).2 <;> rfl
  · rw [hvisits] at htells
    rw [reference_eq_error htells]
    rfl

/-- The root of a source is in order exactly when it is a node for a whole file. -/
theorem checkRoot_eq_ok_iff {source : Source} :
    checkRoot source = .ok () ↔
      ∃ i, source.root = .node i ∧ (source.graph.node i).kind = .sourceFile := by
  unfold checkRoot
  cases hroot : source.root with
  | node i => by_cases hkind : (source.graph.node i).kind = .sourceFile <;> simp [hkind]
  | stray value => cases value <;> simp

/-- A run gives a result exactly when it has a resolver, its root is in order, its walk finds no
defect, and the computed result on the nodes met is that result. -/
theorem run_outcome_eq_ok_iff {linter : Linter} (hregistry : linter.registry.Consistent)
    {source : Source} {resolver : Option Types.Resolver} {result : LintResult} :
    (linter.run source resolver).outcome = .ok result ↔
      ∃ resolve, resolver.or linter.resolver = some resolve ∧ checkRoot source = .ok () ∧
        (source.graph.trace source.root).2 = none ∧
        linter.reference source resolve
          ((source.graph.trace source.root).1.map source.graph.vertex) = .ok result := by
  unfold run
  cases resolver.or linter.resolver with
  | none => simp
  | some resolve =>
    cases checkRoot source with
    | error e => simp
    | ok _ =>
      simp only [Option.some.injEq, exists_eq_left', true_and]
      rw [runWalk_outcome hregistry]
      cases linter.reference source resolve
          ((source.graph.trace source.root).1.map source.graph.vertex) with
      | error e => simp
      | ok computed => cases (source.graph.trace source.root).2 <;> simp

/-- A run with registered rules gives a result exactly when it has a resolver and its root is a node
for a whole file with a tree below it, and the result is the one computed from the recursive
pre-order of that tree: every node with the rules that inspect its kind, in order of
registration. -/
theorem run_eq_ok_iff_reference_preorder (linter : Linter) (rules : List Rule)
    (hrules : Registry.ofRules rules = .ok linter.registry) (source : Source)
    (resolver : Option Types.Resolver) (result : LintResult) :
    (linter.run source resolver).outcome = .ok result ↔
      ∃ resolve i nodes, resolver.or linter.resolver = some resolve ∧
        source.root = .node i ∧ (source.graph.node i).kind = .sourceFile ∧
        source.graph.InPreorder [i] nodes ∧ nodes.Nodup ∧
        LintResult.reference (linter.config.levelFor linter.registry source.text) source.fileName
          source.text nodes.length
          (Judgement.all resolve rules (nodes.map source.graph.vertex)) = .ok result := by
  obtain ⟨hregistry, hlist⟩ := Registry.consistent_of_ofRules hrules
  rw [run_outcome_eq_ok_iff hregistry]
  constructor
  · intro h
    obtain ⟨resolve, hresolve, hroot, hdefect, hresult⟩ := h
    obtain ⟨i, hi, hkind⟩ := checkRoot_eq_ok_iff.mp hroot
    rw [hi] at hdefect hresult
    obtain ⟨hpre, hnodup⟩ := Graph.trace_eq_iff.mp (Prod.ext rfl hdefect)
    rw [reference, hlist, List.length_map] at hresult
    exact ⟨resolve, i, _, hresolve, hi, hkind, hpre, hnodup, hresult⟩
  · intro h
    obtain ⟨resolve, i, nodes, hresolve, hi, hkind, hpre, hnodup, hresult⟩ := h
    have htrace : source.graph.trace source.root = (nodes, none) := by
      rw [hi]
      exact Graph.trace_eq_iff.mpr ⟨hpre, hnodup⟩
    refine ⟨resolve, hresolve, checkRoot_eq_ok_iff.mpr ⟨i, hi, hkind⟩, ?_, ?_⟩
    · rw [htrace]
    · rw [htrace, reference, hlist, List.length_map]
      exact hresult

/-- A file with a directive and one variable, whose annotation is blank. -/
def blankVariable : Source where
  fileName := "a.ts"
  text := "// typelint: deny(TL003)\nlet X_type:  ;"
  graph := {
    size := 2
    cells := #v[⟨{ kind := .sourceFile, start := 0 }, [.node 1]⟩,
      ⟨{ kind := .variableDeclaration, start := 29, declared := some " ",
         name := some "X_type" }, []⟩] }
  root := .node (0 : Fin 2)

/-- Two of the three checks on the variable fail, and the third finding is an error by the
directive. -/
def blankVariableResult : LintResult where
  fileName := "a.ts"
  text := "// typelint: deny(TL003)\nlet X_type:  ;"
  diagnostics := [⟨"a.ts", 2, 5, "Variables must be named in camelCase. X_type is invalid.",
    "TL003", "camel-case-naming", .error, 29, none⟩]
  stats := ⟨2, 3, 1, 0, [
    ⟨"TL002", .variableDeclaration, 29,
      "TypeResolutionError: empty type annotation on <VariableDeclaration 'X_type' @29>"⟩,
    ⟨"TL004", .variableDeclaration, 29,
      "TypeResolutionError: empty type annotation on <VariableDeclaration 'X_type' @29>"⟩]⟩

/-- The variable comes after the file. -/
theorem trace_blankVariable :
    blankVariable.graph.trace blankVariable.root = ([(0 : Fin 2), (1 : Fin 2)], none) := by
  have hbelow : blankVariable.graph.InPreorder [(1 : Fin 2)] [(1 : Fin 2)] :=
    @Graph.InPreorder.cons blankVariable.graph (1 : Fin 2) [] [] [] [] rfl .nil .nil
  have hpre : blankVariable.graph.InPreorder [(0 : Fin 2)] [(0 : Fin 2), (1 : Fin 2)] :=
    @Graph.InPreorder.cons blankVariable.graph (0 : Fin 2) [(1 : Fin 2)] [] _ [] rfl hbelow .nil
  have hnodup : [(0 : Fin 2), (1 : Fin 2)].Nodup := by decide
  exact Graph.trace_eq_iff.mpr ⟨hpre, hnodup⟩

/-- The result computed from the two nodes. -/
theorem reference_blankVariable :
    ({} : Linter).reference blankVariable .declared
      ([(0 : Fin 2), (1 : Fin 2)].map blankVariable.graph.vertex) = .ok blankVariableResult := by
  decide +kernel

/-- The run over the file gives this result. -/
theorem run_blankVariable :
    Registry.ofRules Catalog.rules = .ok Registry.reference ∧
    (({} : Linter).run blankVariable (some .declared)).outcome = .ok blankVariableResult := by
  have hrules : Registry.ofRules Catalog.rules = .ok Registry.reference := rfl
  obtain ⟨hpre, hnodup⟩ := Graph.trace_eq_iff.mp trace_blankVariable
  refine ⟨hrules, (run_eq_ok_iff_reference_preorder {} Catalog.rules hrules _ _ _).mpr ?_⟩
  exact ⟨.declared, _, _, rfl, rfl, rfl, hpre, hnodup, reference_blankVariable⟩

end TreeLint.Linter
