import TreeLint.Proofs.Lint.Judgements
import TreeLint.Proofs.Lint.Run
import TreeLint.Proofs.Tree.Layout

/-!
# Results read off a document

Decoding, numbering, the table of types, the layout of the tree as a graph and the walk all hand on
what the node objects of a document say. The outcome of a run over a decoded document is therefore
computed from these objects in pre-order. Such a run fails in one way only, by a finding of an
enforced rule outside the text.
-/

namespace TreeLint.Document

/-- Renaming errors keeps what succeeds. -/
theorem mapError_eq_ok_iff {ε δ α : Type} {x : Except ε α} {f : ε → δ} {a : α} :
    x.mapError f = .ok a ↔ x = .ok a := by
  cases x <;> simp [Except.mapError]

/-- The outcome of a run over a decoded tree is computed from the objects that its nodes mirror. -/
theorem run_outcome_of_mirrors {loaded : LoadedTree} {objects : List Fields}
    (hkind : loaded.tree.label.kind = .sourceFile)
    (hobjects : List.Forall₂ (Mirrors loaded.types) objects
      (loaded.tree.preorder.map Tree.label))
    (fallback : Option Types.Resolver) (config : Configuration) :
    (({ resolver := fallback, config := config } : Linter).run loaded.source
        (some loaded.resolver)).outcome =
      (LintResult.reference (config.levelFor Registry.reference loaded.text) loaded.fileName
        loaded.text objects.length (objects.flatMap judgements)).mapError .position := by
  obtain ⟨hregistry, hrules⟩ := Registry.consistent_reference
  obtain ⟨hdefect, hnodes⟩ := loaded.tree.trace_toGraph
  have hroot : Linter.checkRoot loaded.source = .ok () := by
    refine Linter.checkRoot_eq_ok_iff.mpr ⟨⟨0, loaded.tree.size_pos⟩, rfl, ?_⟩
    exact (congrArg Node.kind loaded.tree.node_toGraph_zero).trans hkind
  let linter : Linter := { resolver := fallback, config := config }
  have hwalk : (linter.run loaded.source (some loaded.resolver)).outcome =
      (linter.runWalk loaded.source loaded.resolver).outcome := by
    unfold Linter.run
    rw [Option.some_or, hroot]
  have hdefect : (loaded.source.graph.trace loaded.source.root).2 = none := hdefect
  let vertices := (loaded.source.graph.trace loaded.source.root).1.map loaded.source.graph.vertex
  have hlabels : vertices.map Vertex.node = loaded.tree.preorder.map Tree.label :=
    List.map_map.trans hnodes
  have hreference : linter.reference loaded.source loaded.resolver vertices =
      LintResult.reference (config.levelFor Registry.reference loaded.text) loaded.fileName
        loaded.text objects.length (objects.flatMap judgements) := by
    rw [← hlabels] at hobjects
    rw [← all_eq_flatMap_judgements hobjects, hobjects.length_eq, List.length_map, ← hrules]
    rfl
  rw [hwalk, Linter.runWalk_outcome hregistry, hreference, hdefect]
  cases LintResult.reference (config.levelFor Registry.reference loaded.text) loaded.fileName
    loaded.text objects.length (objects.flatMap judgements) <;> rfl

/-- The objects that nodes mirror do not start before the text. -/
theorem startIn_nonneg {types : Table Int String} {objects : List Fields} {nodes : List Node}
    (h : List.Forall₂ (Mirrors types) objects nodes) : ∀ fields ∈ objects, 0 ≤ startIn fields := by
  induction h with
  | nil => simp
  | cons hobject _ ih =>
    intro fields hfields
    rcases List.mem_cons.mp hfields with rfl | hfields
    · rw [← hobject.start_eq]
      exact hobject.start_nonneg
    · exact ih fields hfields

/-- The result computed from objects exists exactly when every finding of an enforced rule starts
inside the text. -/
theorem exists_reference_iff {types : Table Int String} {objects : List Fields}
    {nodes : List Node} (h : List.Forall₂ (Mirrors types) objects nodes)
    {level : RuleInfo → Level} {fileName text : String} {visited : Nat} :
    (∃ result, LintResult.reference level fileName text visited (objects.flatMap judgements) =
        .ok result) ↔
      ∀ fields ∈ objects, ∀ judgement ∈ judgements fields, judgement.isFound = true →
        level judgement.info ≠ .allow → startIn fields ≤ text.length := by
  rw [LintResult.exists_reference_eq_ok_iff]
  simp only [Judgement.report?_ne_error_iff, List.mem_flatMap]
  constructor
  · intro hplaced fields hfields judgement hmem hfound henforced
    rw [← start_of_mem_judgements hmem]
    exact (hplaced judgement ⟨fields, hfields, hmem⟩ hfound henforced).2
  · intro hplaced judgement hjudgement hfound henforced
    obtain ⟨fields, hfields, hmem⟩ := hjudgement
    rw [start_of_mem_judgements hmem]
    exact ⟨startIn_nonneg h fields hfields, hplaced fields hfields judgement hmem hfound henforced⟩

/-- The outcome of a run with the reference rules over a decoded document is computed from the node
objects of the document in pre-order. The run can fail only by a misplaced finding, and returns
exactly when every finding of an enforced rule starts inside the text. -/
theorem run_of_decode (allowUnknown : Bool) (document : Json) (loaded : LoadedTree)
    (h : decode allowUnknown document = .ok loaded) (fallback : Option Types.Resolver)
    (config : Configuration) :
    ∃ root, document.field? "fileName" = some (.str loaded.fileName) ∧
      document.field? "text" = some (.str loaded.text) ∧
      document.field? "root" = some root ∧
      (({ resolver := fallback, config := config } : Linter).run loaded.source
          (some loaded.resolver)).outcome =
        (LintResult.reference (config.levelFor Registry.reference loaded.text) loaded.fileName
          loaded.text (objects root).length ((objects root).flatMap judgements)).mapError
            .position ∧
      (∀ e, (({ resolver := fallback, config := config } : Linter).run loaded.source
          (some loaded.resolver)).outcome = .error e → ∃ misplaced, e = .position misplaced) ∧
      ((∃ result, (({ resolver := fallback, config := config } : Linter).run loaded.source
          (some loaded.resolver)).outcome = .ok result) ↔
        ∀ fields ∈ objects root, ∀ judgement ∈ judgements fields, judgement.isFound = true →
          config.levelFor Registry.reference loaded.text judgement.info ≠ .allow →
            startIn fields ≤ loaded.text.length) := by
  obtain ⟨root, hfileName, htext, hroot, hkind, hobjects⟩ := exists_root_of_decode h
  have houtcome := run_outcome_of_mirrors hkind hobjects fallback config
  refine ⟨root, hfileName, htext, hroot, houtcome, ?_, ?_⟩
  · intro e he
    rw [houtcome] at he
    cases hreference : LintResult.reference (config.levelFor Registry.reference loaded.text)
        loaded.fileName loaded.text (objects root).length ((objects root).flatMap judgements) with
    | ok result =>
      rw [hreference] at he
      cases he
    | error misplaced =>
      rw [hreference] at he
      cases he
      exact ⟨misplaced, rfl⟩
  · simp only [houtcome, mapError_eq_ok_iff]
    exact exists_reference_iff hobjects

/-- A document with a function that has no annotation, and two variables: the type of the first was
found by the front end, the annotation of the second is blank. -/
def sample : Json :=
  .obj [("fileName", .str "a.ts"), ("text", .str "function f() \x7b\x7d let aType, b_type:  ;"),
    ("root", .obj [("kind", .str "SourceFile"), ("pos", .int 0), ("children", .arr [
      .obj [("kind", .str "FunctionDeclaration"), ("pos", .int 0), ("name", .str "f")],
      .obj [("kind", .str "VariableDeclaration"), ("pos", .int 20), ("name", .str "aType"),
        ("resolvedType", .str " String ")],
      .obj [("kind", .str "VARIABLE_DECLARATION"), ("pos", .int 27), ("name", .str "b_type"),
        ("type", .str "  "), ("id", .int 7)]])])]

/-- Each of the three declarations is found once, and two checks on the blank annotation fail. -/
theorem run_sample :
    ∃ loaded, decode false sample = .ok loaded ∧
      (({} : Linter).run loaded.source (some loaded.resolver)).outcome = .ok {
        fileName := "a.ts"
        text := "function f() \x7b\x7d let aType, b_type:  ;"
        diagnostics := [
          ⟨"a.ts", 1, 1, "A function must declare an explicit return type", "TL001",
            "explicit-return-type", .warning, 0,
            some "annotate the return type, e.g. `function f(): void`"⟩,
          ⟨"a.ts", 1, 21, "Use Enums to represent types, not strings", "TL004",
            "prefer-enum-over-string-for-type-vars", .warning, 20,
            some "declare an enum for the possible values of 'aType'"⟩,
          ⟨"a.ts", 1, 28, "Variables must be named in camelCase. b_type is invalid.", "TL003",
            "camel-case-naming", .warning, 27, none⟩]
        stats := ⟨4, 7, 3, 0, [
          ⟨"TL002", .variableDeclaration, 27,
            "TypeResolutionError: empty type annotation on <VariableDeclaration 'b_type' @27>"⟩,
          ⟨"TL004", .variableDeclaration, 27,
            "TypeResolutionError: empty type annotation on <VariableDeclaration 'b_type' @27>"⟩]⟩ } := by
  have haccepted : (decode false sample).toOption.isSome = true := by decide +kernel
  cases hloaded : decode false sample with
  | error e => simp [hloaded, Except.toOption] at haccepted
  | ok loaded =>
    obtain ⟨root, hfileName, htext, hroot, houtcome, _⟩ :=
      run_of_decode false sample loaded hloaded none {}
    obtain ⟨fileName, text, tree, types⟩ := loaded
    cases hfileName
    cases htext
    cases hroot
    refine ⟨_, rfl, ?_⟩
    rw [houtcome]
    dsimp only
    decide +kernel

end TreeLint.Document
