import TreeLint.Proofs.Lint.Reports

/-!
# Rules do not interfere

Two runs over one source are compared, one with a registry and one with the same rules in the same
order but one left out. The levels of the other rules are the same in both, since no two rules share
an identifier; so are the pairs of nodes with the other rules, and what they contribute. Leaving out
a rule takes away its own diagnostics and failures and nothing else. A rule that fails wherever it
is evaluated, or is not enforced, cannot end a run and has no diagnostics.
-/

namespace TreeLint

/-- Filtering by a key after a partial map is filtering by the same key before it. -/
theorem filterMap_filter_of_key {α β : Type} {f : α → Option β} {p : α → Bool} {q : β → Bool}
    {items : List α} (h : ∀ a ∈ items, ∀ b, f a = some b → p a = q b) :
    (items.filter p).filterMap f = (items.filterMap f).filter q := by
  rw [List.filterMap_filter, List.filter_filterMap]
  apply List.filterMap_congr
  intro a ha
  cases hf : f a with
  | none => simp
  | some b => rw [h a ha b hf, Option.filter_some]

/-- Leaving out a rule leaves out its pairs and keeps the others in order. -/
theorem Inspection.all_eq_filter {before after : List Rule} {rule : Rule}
    (hcodes : ∀ other ∈ before ++ after, other.info.code ≠ rule.info.code)
    (vertices : List Vertex) :
    all (before ++ after) vertices =
      (all (before ++ rule :: after) vertices).filter fun pair =>
        pair.rule.info.code ≠ rule.info.code := by
  have hrules : (before ++ rule :: after).filter (fun other => other.info.code ≠ rule.info.code) =
      before ++ after := by
    rw [List.filter_append, List.filter_cons_of_neg (by simp), ← List.filter_append,
      List.filter_eq_self]
    exact fun other hother => decide_eq_true (hcodes other hother)
  unfold all
  rw [List.filter_flatMap, ← hrules]
  apply congrArg (fun f => List.flatMap f vertices)
  funext vertex
  rw [List.filter_map, List.filter_comm]
  rfl

/-- Rules registered together can be registered without one of them. -/
theorem Registry.exists_ofRules_without {before after : List Rule} {rule : Rule}
    {registry : Registry} (h : ofRules (before ++ rule :: after) = .ok registry) :
    ∃ others, ofRules (before ++ after) = .ok others := by
  obtain ⟨hkinds, hapart⟩ := exists_ofRules_iff.mp ⟨registry, h⟩
  have hsub : List.Sublist (before ++ after) (before ++ rule :: after) :=
    (List.sublist_cons_self rule after).append_left before
  exact exists_ofRules_iff.mpr
    ⟨fun other hother => hkinds other (hsub.subset hother), hapart.sublist hsub⟩

/-- A rule registered together with others is listed. -/
theorem Registry.mem_rules_of_ofRules {before after : List Rule} {rule : Rule}
    {registry : Registry} (h : ofRules (before ++ rule :: after) = .ok registry) :
    rule ∈ registry.rules := by
  rw [(consistent_of_ofRules h).2]
  exact List.mem_append_right _ List.mem_cons_self

/-- The other rules registered together with a rule have other codes. -/
theorem Registry.code_ne_of_ofRules {before after : List Rule} {rule : Rule}
    {registry : Registry} (h : ofRules (before ++ rule :: after) = .ok registry) :
    ∀ other ∈ before ++ after, other.info.code ≠ rule.info.code := by
  intro other hother hcode
  have hapart := (exists_ofRules_iff.mp ⟨registry, h⟩).2
  have hcalled : other.info.IsCalled rule.info.code := .inl hcode
  obtain ⟨_, hafter, hbefore⟩ := List.pairwise_append.mp hapart
  rcases List.mem_append.mp hother with hother | hother
  · exact hbefore other hother rule List.mem_cons_self _ hcalled rule.info.isCalled_code
  · exact (List.pairwise_cons.mp hafter).1 other hother _ rule.info.isCalled_code hcalled

namespace Linter

variable {linter : Linter} {source : Source} {resolver : Option Types.Resolver}
  {resolve : Types.Resolver} {rule : Rule} {before after : List Rule} {others : Registry}

/-- Without one of its rules, a run goes through the pairs of the other rules in the same
order. -/
theorem inspections_without
    (hrules : Registry.ofRules (before ++ rule :: after) = .ok linter.registry)
    (hothers : Registry.ofRules (before ++ after) = .ok others) :
    ({ linter with registry := others } : Linter).inspections source =
      (linter.inspections source).filter fun pair => pair.rule.info.code ≠ rule.info.code := by
  unfold inspections
  rw [(Registry.consistent_of_ofRules hrules).2, (Registry.consistent_of_ofRules hothers).2]
  exact Inspection.all_eq_filter (Registry.code_ne_of_ofRules hrules) _

/-- Without one of its rules, a run reports the pairs of the other rules as before. -/
theorem reportIn?_without
    (hrules : Registry.ofRules (before ++ rule :: after) = .ok linter.registry)
    (hothers : Registry.ofRules (before ++ after) = .ok others) {pair : Inspection}
    (hpair : pair ∈ ({ linter with registry := others } : Linter).inspections source) :
    ({ linter with registry := others } : Linter).reportIn? source resolve pair =
      linter.reportIn? source resolve pair := by
  obtain ⟨hregistry, hlist⟩ := Registry.consistent_of_ofRules hrules
  obtain ⟨hregistry', hlist'⟩ := Registry.consistent_of_ofRules hothers
  have hrule : pair.rule ∈ others.rules := Inspection.rule_mem_of_mem_all hpair
  have hkept : pair.rule ∈ linter.registry.rules := by
    rw [hlist'] at hrule
    rw [hlist]
    exact ((List.sublist_cons_self rule after).append_left before).subset hrule
  exact Judgement.report?_congr
    (Configuration.levelFor_congr hregistry' hregistry hrule hkept linter.config source.text)

/-- Where no finding is misplaced, leaving out a rule leaves out its diagnostics. -/
theorem reports_without
    (hrules : Registry.ofRules (before ++ rule :: after) = .ok linter.registry)
    (hothers : Registry.ofRules (before ++ after) = .ok others) {diagnostics : List Diagnostic}
    (h : (linter.inspections source).filterMap (linter.reportIn? source resolve) =
      diagnostics.map .ok) :
    (({ linter with registry := others } : Linter).inspections source).filterMap
        (({ linter with registry := others } : Linter).reportIn? source resolve) =
      (diagnostics.filter fun diagnostic => diagnostic.code ≠ rule.info.code).map .ok := by
  let keeps (report : Except Text.OffsetError Diagnostic) : Bool :=
    report.toOption.all fun diagnostic => diagnostic.code ≠ rule.info.code
  have hkeeps : ∀ pair ∈ linter.inspections source, ∀ report,
      linter.reportIn? source resolve pair = some report →
        decide (pair.rule.info.code ≠ rule.info.code) = keeps report := by
    intro pair hpair report hreport
    have hmem := List.mem_filterMap.mpr ⟨pair, hpair, hreport⟩
    rw [h] at hmem
    obtain ⟨diagnostic, _, rfl⟩ := List.mem_map.mp hmem
    change _ = decide (diagnostic.code ≠ rule.info.code)
    rw [Judgement.code_of_report? hreport]
    rfl
  rw [List.filterMap_congr fun pair hpair => reportIn?_without hrules hothers hpair,
    inspections_without hrules hothers, filterMap_filter_of_key hkeeps, h, List.filter_map]
  rfl

/-- Leaving out a rule leaves out its failures. -/
theorem failures_without
    (hrules : Registry.ofRules (before ++ rule :: after) = .ok linter.registry)
    (hothers : Registry.ofRules (before ++ after) = .ok others) :
    (({ linter with registry := others } : Linter).inspections source).filterMap
        (fun pair => (pair.judge resolve).failure?) =
      ((linter.inspections source).filterMap fun pair => (pair.judge resolve).failure?).filter
        fun failure => failure.code ≠ rule.info.code := by
  rw [inspections_without hrules hothers]
  apply filterMap_filter_of_key
  intro pair _ failure hfailure
  rw [Judgement.code_of_failure? hfailure]
  rfl

/-- A result without one of the rules is the result with all rules but what that rule
contributes. -/
theorem result_without
    (hrules : Registry.ofRules (before ++ rule :: after) = .ok linter.registry)
    (hothers : Registry.ofRules (before ++ after) = .ok others) {result rest : LintResult}
    (hresult : (linter.run source resolver).outcome = .ok result)
    (hrest : (({ linter with registry := others } : Linter).run source resolver).outcome =
      .ok rest) :
    rest.diagnostics = result.diagnostics.filter (·.code ≠ rule.info.code) ∧
      rest.stats.failures = result.stats.failures.filter (·.code ≠ rule.info.code) ∧
      rest.stats.nodesVisited = result.stats.nodesVisited := by
  obtain ⟨hregistry, _⟩ := Registry.consistent_of_ofRules hrules
  obtain ⟨hregistry', _⟩ := Registry.consistent_of_ofRules hothers
  obtain ⟨resolve, hresolve, _, hreports, hfailures, hvisited⟩ := reports_of_run hregistry hresult
  obtain ⟨_, hresolve', _, hreports', hfailures', hvisited'⟩ :=
    @reports_of_run { linter with registry := others } source resolver hregistry' rest hrest
  cases Option.some.inj (hresolve.symm.trans hresolve')
  refine ⟨?_, ?_, hvisited'.trans hvisited.symm⟩
  · rw [reports_without hrules hothers hreports] at hreports'
    exact (List.map_injective_iff.mpr (fun _ _ => Except.ok.inj) hreports').symm
  · rw [hfailures', hfailures]
    exact failures_without hrules hothers

/-- A rule that fails wherever a run evaluates it, or that is not enforced. -/
def IsQuiet (linter : Linter) (source : Source) (resolve : Types.Resolver) (rule : Rule) : Prop :=
  (∀ vertex, linter.Applies source resolve rule vertex →
    ∃ fault, (rule.check vertex).eval resolve = .error fault) ∨
  linter.config.levelFor linter.registry source.text rule.info = .allow

/-- A quiet rule has no diagnostic where a run evaluates it. -/
theorem IsQuiet.reportIn?_eq_none (hregistry : linter.registry.Consistent)
    (hrule : rule ∈ linter.registry.rules) (hroot : checkRoot source = .ok ())
    (h : linter.IsQuiet source resolve rule) {earlier later : List Inspection} {pair : Inspection}
    (hpairs : linter.inspections source = earlier ++ pair :: later)
    (hearlier : ∀ pair ∈ earlier, ∀ e, linter.reportIn? source resolve pair ≠ some (.error e))
    (hcode : pair.rule.info.code = rule.info.code) :
    linter.reportIn? source resolve pair = none := by
  obtain ⟨vertex, other⟩ := pair
  have hmem : (⟨vertex, other⟩ : Inspection) ∈ linter.inspections source := by
    rw [hpairs]
    exact List.mem_append_right _ List.mem_cons_self
  -- Codes tell registered rules apart, so the pair is one of the rule itself.
  have hsame : other = rule := hregistry.eq_of_isCalled (Inspection.rule_mem_of_mem_all hmem) hrule
    other.info.isCalled_code (.inl hcode.symm)
  subst hsame
  apply Judgement.report?_eq_none
  rcases h with hfails | hallow
  · exact .inl (hfails vertex ⟨hroot, earlier, later, hpairs, hearlier⟩)
  · exact .inr hallow

/-- Where only pairs of a quiet rule could be misplaced, none is. -/
theorem IsQuiet.not_misplaced (hregistry : linter.registry.Consistent)
    (hrule : rule ∈ linter.registry.rules) (hroot : checkRoot source = .ok ())
    (h : linter.IsQuiet source resolve rule)
    (hothers : ∀ pair ∈ linter.inspections source, pair.rule.info.code ≠ rule.info.code →
      ∀ e, linter.reportIn? source resolve pair ≠ some (.error e)) :
    ∀ pair ∈ linter.inspections source, ∀ e,
      linter.reportIn? source resolve pair ≠ some (.error e) := by
  -- The first misplaced pair would be one of the rule, evaluated by the run.
  suffices hprefix : ∀ earlier later, linter.inspections source = earlier ++ later →
      ∀ pair ∈ earlier, ∀ e, linter.reportIn? source resolve pair ≠ some (.error e) from
    hprefix _ [] (List.append_nil _).symm
  intro earlier
  induction earlier using List.reverseRecOn with
  | nil => simp
  | append_singleton earlier last ih =>
    intro later hpairs pair hpair e
    rw [List.append_assoc, List.singleton_append] at hpairs
    have hearlier := ih _ hpairs
    rcases List.mem_append.mp hpair with hpair | hpair
    · exact hearlier pair hpair e
    · rw [List.mem_singleton] at hpair
      subst hpair
      by_cases hcode : pair.rule.info.code = rule.info.code
      · rw [h.reportIn?_eq_none hregistry hrule hroot hpairs hearlier hcode]
        exact (Option.some_ne_none _).symm
      · have hmem : pair ∈ linter.inspections source := by
          rw [hpairs]
          exact List.mem_append_right _ List.mem_cons_self
        exact hothers pair hmem hcode e

/-- Runs with and without a quiet rule return together. -/
theorem exists_run_without_iff
    (hrules : Registry.ofRules (before ++ rule :: after) = .ok linter.registry)
    (hothers : Registry.ofRules (before ++ after) = .ok others)
    (hquiet : ∀ resolve, resolver.or linter.resolver = some resolve →
      linter.IsQuiet source resolve rule) :
    (∃ result, (linter.run source resolver).outcome = .ok result) ↔
      ∃ rest, (({ linter with registry := others } : Linter).run source resolver).outcome =
        .ok rest := by
  obtain ⟨hregistry, _⟩ := Registry.consistent_of_ofRules hrules
  obtain ⟨hregistry', _⟩ := Registry.consistent_of_ofRules hothers
  have hrule := Registry.mem_rules_of_ofRules hrules
  rw [exists_run_iff hregistry,
    @exists_run_iff { linter with registry := others } source resolver hregistry']
  constructor
  · intro h
    obtain ⟨resolve, hresolve, hroot, hdefect, hplaced⟩ := h
    refine ⟨resolve, hresolve, hroot, hdefect, fun pair hpair => ?_⟩
    rw [reportIn?_without hrules hothers hpair]
    rw [inspections_without hrules hothers] at hpair
    exact hplaced pair (List.mem_filter.mp hpair).1
  · intro h
    obtain ⟨resolve, hresolve, hroot, hdefect, hplaced⟩ := h
    refine ⟨resolve, hresolve, hroot, hdefect, ?_⟩
    apply (hquiet resolve hresolve).not_misplaced hregistry hrule hroot
    intro pair hpair hcode
    have hkept : pair ∈ ({ linter with registry := others } : Linter).inspections source := by
      rw [inspections_without hrules hothers]
      exact List.mem_filter.mpr ⟨hpair, decide_eq_true hcode⟩
    rw [← reportIn?_without hrules hothers hkept]
    exact hplaced pair hkept

/-- A quiet rule has no diagnostics in a result. -/
theorem code_ne_of_isQuiet (hregistry : linter.registry.Consistent)
    (hrule : rule ∈ linter.registry.rules)
    (hquiet : ∀ resolve, resolver.or linter.resolver = some resolve →
      linter.IsQuiet source resolve rule) {result : LintResult}
    (h : (linter.run source resolver).outcome = .ok result) :
    ∀ diagnostic ∈ result.diagnostics, diagnostic.code ≠ rule.info.code := by
  intro diagnostic hdiagnostic hcode
  obtain ⟨resolve, hresolve, hroot, hreports, _, _⟩ := reports_of_run hregistry h
  obtain ⟨_, hresolve', _, _, hplaced⟩ := (exists_run_iff hregistry).mp ⟨result, h⟩
  cases Option.some.inj (hresolve.symm.trans hresolve')
  have hmem : .ok diagnostic ∈
      (linter.inspections source).filterMap (linter.reportIn? source resolve) := by
    rw [hreports]
    exact List.mem_map.mpr ⟨diagnostic, hdiagnostic, rfl⟩
  obtain ⟨pair, hpair, hreport⟩ := List.mem_filterMap.mp hmem
  obtain ⟨earlier, later, hpairs⟩ := List.append_of_mem hpair
  have hearlier : ∀ other ∈ earlier, ∀ e,
      linter.reportIn? source resolve other ≠ some (.error e) := by
    intro other hother
    apply hplaced other
    rw [hpairs]
    exact List.mem_append_left _ hother
  have hnone := (hquiet resolve hresolve).reportIn?_eq_none hregistry hrule hroot hpairs hearlier
    ((Judgement.code_of_report? hreport).symm.trans hcode)
  rw [hnone] at hreport
  cases hreport

/-- The rules of a registry but one can be registered in the same order. Where a run with all rules
and a run without that rule both return, the second has the diagnostics and failures of the first
but those of the rule, and visits as many nodes. If the rule fails wherever the run evaluates it,
or is not enforced, the two return together and with the same diagnostics. -/
theorem run_without_rule (linter : Linter) (before : List Rule) (rule : Rule) (after : List Rule)
    (hrules : Registry.ofRules (before ++ rule :: after) = .ok linter.registry) (source : Source)
    (resolver : Option Types.Resolver) :
    ∃ others, Registry.ofRules (before ++ after) = .ok others ∧
      (∀ result rest, (linter.run source resolver).outcome = .ok result →
        (({ linter with registry := others } : Linter).run source resolver).outcome = .ok rest →
          rest.diagnostics = result.diagnostics.filter (·.code ≠ rule.info.code) ∧
          rest.stats.failures = result.stats.failures.filter (·.code ≠ rule.info.code) ∧
          rest.stats.nodesVisited = result.stats.nodesVisited) ∧
      ((∀ resolve, resolver.or linter.resolver = some resolve →
          linter.IsQuiet source resolve rule) →
        ((∃ result, (linter.run source resolver).outcome = .ok result) ↔
          ∃ rest, (({ linter with registry := others } : Linter).run source resolver).outcome =
            .ok rest) ∧
        ∀ result rest, (linter.run source resolver).outcome = .ok result →
          (({ linter with registry := others } : Linter).run source resolver).outcome = .ok rest →
            rest.diagnostics = result.diagnostics) := by
  obtain ⟨others, hothers⟩ := Registry.exists_ofRules_without hrules
  refine ⟨others, hothers, fun result rest => result_without hrules hothers, fun hquiet => ?_⟩
  refine ⟨exists_run_without_iff hrules hothers hquiet, fun result rest hresult hrest => ?_⟩
  obtain ⟨hregistry, _⟩ := Registry.consistent_of_ofRules hrules
  have hrule := Registry.mem_rules_of_ofRules hrules
  rw [(result_without hrules hothers hresult hrest).1, List.filter_eq_self]
  intro diagnostic hdiagnostic
  exact decide_eq_true (code_ne_of_isQuiet hregistry hrule hquiet hresult diagnostic hdiagnostic)

/-- On a variable with a blank annotation the rule against `any` fails, and a run without it has
the same diagnostics. -/
theorem run_blankVariable_without :
    Registry.ofRules ([Catalog.explicitReturnType] ++ Catalog.noExplicitAny ::
      [Catalog.camelCaseNaming, Catalog.preferEnum]) = .ok Registry.reference ∧
    ∃ others, Registry.ofRules ([Catalog.explicitReturnType] ++
      [Catalog.camelCaseNaming, Catalog.preferEnum]) = .ok others ∧
    ∃ rest, (({ registry := others } : Linter).run blankVariable (some .declared)).outcome =
        .ok rest ∧
      rest.diagnostics = blankVariableResult.diagnostics ∧
      rest.stats.failures.map RuleFailure.code = ["TL004"] := by
  have hrules : Registry.ofRules ([Catalog.explicitReturnType] ++ Catalog.noExplicitAny ::
      [Catalog.camelCaseNaming, Catalog.preferEnum]) = .ok Registry.reference := rfl
  refine ⟨hrules, ?_⟩
  obtain ⟨others, hothers, hwithout, hquiet⟩ :=
    run_without_rule {} [Catalog.explicitReturnType] Catalog.noExplicitAny
      [Catalog.camelCaseNaming, Catalog.preferEnum] hrules blankVariable (some .declared)
  have hpairs : ({} : Linter).inspections blankVariable =
      [Catalog.noExplicitAny, Catalog.camelCaseNaming, Catalog.preferEnum].map
        fun rule => ⟨blankVariable.graph.vertex (1 : Fin 2), rule⟩ := by
    unfold inspections
    rw [trace_blankVariable]
    rfl
  have hfails : ∀ resolve, (some Types.Resolver.declared).or ({} : Linter).resolver = some resolve →
      ({} : Linter).IsQuiet blankVariable resolve Catalog.noExplicitAny := by
    intro resolve hresolve
    cases hresolve
    left
    intro vertex hvertex
    obtain ⟨_, earlier, later, hsplit, _⟩ := hvertex
    have hmem : (⟨vertex, Catalog.noExplicitAny⟩ : Inspection) ∈
        ({} : Linter).inspections blankVariable := by
      rw [hsplit]
      exact List.mem_append_right _ List.mem_cons_self
    rw [hpairs] at hmem
    obtain ⟨rule, _, hpair⟩ := List.mem_map.mp hmem
    cases congrArg Inspection.vertex hpair
    exact ⟨_, rfl⟩
  obtain ⟨hreturns, hsame⟩ := hquiet hfails
  have hresult : (({} : Linter).run blankVariable (some .declared)).outcome =
      .ok blankVariableResult := by
    apply (run_outcome_eq_ok_iff (Registry.consistent_of_ofRules hrules).1).mpr
    refine ⟨.declared, rfl, rfl, ?_, ?_⟩
    · rw [trace_blankVariable]
    · rw [trace_blankVariable]
      exact reference_blankVariable
  obtain ⟨rest, hrest⟩ := hreturns.mp ⟨_, hresult⟩
  refine ⟨others, hothers, rest, hrest, hsame _ _ hresult hrest, ?_⟩
  rw [(hwithout _ _ hresult hrest).2.1]
  decide

end Linter

end TreeLint
