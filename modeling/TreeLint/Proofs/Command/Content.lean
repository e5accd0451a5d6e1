import TreeLint.Proofs.Command.Status

/-!
# Any content of a file

Whatever bytes a file has, reading them comes to a tree, to an error of the format, or to one of the
two errors that are not reported: the bytes encode no text, or a whole number has too many digits.
The lint command on the one file ends with a status exactly in the first two cases.
-/

namespace TreeLint.Command

variable {files : FileSystem} {registry : Registry} {settings : LintSettings} {path : Path}

/-- A problem with the options comes before one with a file that is there. -/
theorem firstProblem?_of_option (hinputs : settings.inputs = [path]) {entry : FileEntry}
    (hentry : files.follow path = .ok entry) {cause : OptionError}
    (hoption : optionProblem? registry settings = some cause) :
    firstProblem? files registry settings = some (.option cause) := by
  have habsence : absence? files path = none := absence?_eq_none_iff.mpr ⟨entry, hentry⟩
  simp [firstProblem?, hinputs, habsence, hoption]

/-- With options that are in order, a file that cannot be loaded is the first problem. -/
theorem firstProblem?_of_load_error (hinputs : settings.inputs = [path]) {entry : FileEntry}
    (hentry : files.follow path = .ok entry) (hjobs : settings.jobs ≠ none)
    (hoption : optionProblem? registry settings = none) {e : LoadError}
    (hload : files.loadTree settings.allowsUnknownKinds path = .error e) :
    firstProblem? files registry settings = some (.files (.load e)) := by
  obtain ⟨jobs, hjobs⟩ := Option.ne_none_iff_exists'.mp hjobs
  obtain ⟨config, hconfig⟩ :=
    problem?_eq_none_iff.mp ((problem?_configuration registry settings).trans hoption)
  have habsence : absence? files path = none := absence?_eq_none_iff.mpr ⟨entry, hentry⟩
  have hfile : fileProblem? files registry settings path = some (.load e) := by
    simp [fileProblem?, hconfig, Except.toOption, Linter.lintFile, hload]
  simp [firstProblem?, hinputs, habsence, hoption, hjobs, hfile]

/-- A readable file, with options that have their values, is regular if its text is not too long for
an editor. -/
theorem regular_of_readable (hinputs : settings.inputs = [path]) {bytes : List UInt8}
    (hfile : files.follow path = .ok (.file bytes)) (hreadable : Readable bytes)
    (hidentifiers : none ∉ settings.identifiers) (hjobs : settings.jobs ≠ none)
    (htext : settings.format = .editor → ∀ tree,
      files.loadTree settings.allowsUnknownKinds path = .ok tree →
        tree.text.length < Editor.maxCoordinate) :
    Regular files settings := by
  have honly : ∀ other ∈ settings.inputs, other = path := by simp [hinputs]
  refine ⟨hidentifiers, hjobs, fun other hother => ?_, fun other hother found hfound => ?_,
    fun hformat other hother => ?_⟩
  · intro fault hfault
    rw [honly other hother, hfile] at hfault
    cases hfault
  · rw [honly other hother, hfile] at hfound
    cases hfound
    exact hreadable
  · rw [honly other hother]
    exact htext hformat

/-- The status of the command is zero or one. -/
theorem exit_eq_zero_or_one {env : Environment} {threshold : Importance} {o : Output}
    (houtput : perform env threshold (some (.lint settings)) = .output o) :
    o.exit = 0 ∨ o.exit = 1 := by
  cases hfirst : firstProblem? env.files Registry.reference settings with
  | some e =>
    obtain ⟨_, rfl⟩ := output_of_problem hfirst houtput
    exact .inr rfl
  | none =>
    obtain ⟨results, _, _, hexit⟩ := output_of_no_problem hfirst houtput
    rw [hexit]
    exact (exitCode_eq results).symm

/-- Whatever its bytes, a file holds a tree or has an error of the format exactly if it is readable;
otherwise it encodes no text, or there are too many digits in a row in it. The lint command on a
readable file ends with a status, which is one with an error if the file cannot be loaded; on any
other it crashes. -/
theorem content_decides_ending (env : Environment) (threshold : Importance) (path : Path)
    (bytes : List UInt8) (hfile : env.files.follow path = .ok (.file bytes)) :
    (∀ allowUnknown, ((∃ tree, env.files.loadTree allowUnknown path = .ok tree) ∨
      ∃ e, env.files.loadTree allowUnknown path = .error e ∧ e.IsFormat) ↔ Readable bytes) ∧
    (¬ Readable bytes → (∀ text, bytes ≠ Text.utf8 text) ∨
      ∃ text digits, bytes = Text.utf8 text ∧ Json.HasLongRun digits text) ∧
    ∀ settings : LintSettings, settings.inputs = [path] → none ∉ settings.identifiers →
      settings.jobs ≠ none →
      (Readable bytes →
        (settings.format = .editor → ∀ tree,
          env.files.loadTree settings.allowsUnknownKinds path = .ok tree →
            tree.text.length < Editor.maxCoordinate) →
        ∃ o, perform env threshold (some (.lint settings)) = .output o ∧
          (o.exit = 0 ∨ o.exit = 1) ∧
          ∀ e, env.files.loadTree settings.allowsUnknownKinds path = .error e →
            ∃ problem notes,
              o = ⟨1, "", env.noteRows threshold notes ++ env.problemRow problem⟩ ∧
              (optionProblem? Registry.reference settings = none → problem = .files (.load e))) ∧
      (¬ Readable bytes → optionProblem? Registry.reference settings = none →
        ∃ e notes, perform env threshold (some (.lint settings)) =
          .crash (.lint (.files (.load e))) "" (env.noteRows threshold notes)) := by
  refine ⟨FileSystem.loads_or_format_error_iff hfile, fun hunreadable => ?_,
    fun settings hinputs hidentifiers hjobs => ⟨fun hreadable htext => ?_,
      fun hunreadable hoption => ?_⟩⟩
  · rcases FileSystem.loadTree_of_not_readable hfile hunreadable false with
      ⟨hutf8, _⟩ | ⟨text, digits, hbytes, hrun, _⟩
    · exact .inl hutf8
    · exact .inr ⟨text, digits, hbytes, hrun⟩
  · have hregular := regular_of_readable hinputs hfile hreadable hidentifiers hjobs htext
    obtain ⟨o, houtput⟩ := hregular.exists_output
    refine ⟨o, houtput, exit_eq_zero_or_one houtput, fun e hload => ?_⟩
    cases hoption : optionProblem? Registry.reference settings with
    | some cause =>
      obtain ⟨notes, ho⟩ :=
        output_of_problem (firstProblem?_of_option hinputs hfile hoption) houtput
      exact ⟨_, notes, ho, fun h => absurd h (Option.some_ne_none cause)⟩
    | none =>
      obtain ⟨notes, ho⟩ := output_of_problem
        (firstProblem?_of_load_error hinputs hfile hjobs hoption hload) houtput
      exact ⟨_, notes, ho, fun _ => rfl⟩
  · obtain ⟨e, hload, hsilent⟩ : ∃ e, env.files.loadTree settings.allowsUnknownKinds path =
        .error e ∧ ¬ (LintFailure.files (.load e)).IsReported := by
      rcases FileSystem.loadTree_of_not_readable hfile hunreadable settings.allowsUnknownKinds with
        ⟨_, fault, hload⟩ | ⟨_, digits, _, _, hload⟩
      · exact ⟨_, hload, not_false⟩
      · exact ⟨_, hload, not_false⟩
    have hfirst := firstProblem?_of_load_error hinputs hfile hjobs hoption hload
    exact ⟨e, (perform_of_problem hfirst threshold).2 hsilent⟩

/-- Surroundings with one file of the given bytes. -/
def oneFile (bytes : List UInt8) : Environment where
  files := (⟨[(["w.json"], .file bytes)]⟩ : Store).fileSystem
  isTerminal := false
  noColor := none
  stamp := ""

/-- The document of a tree whose only node is of the given kind. -/
def rootDocument (kind : String) : Json :=
  .obj [("fileName", .str "a.ts"), ("text", .str ""),
    ("root", .obj [("kind", .str kind), ("pos", .int 0)])]

/-- The document of a tree with one node can be written. -/
theorem plain_rootDocument (kind : String) : (rootDocument kind).Plain := by
  have hzero : (0 : Int).natAbs < Json.numberBound := by decide +kernel
  have hnode : (Json.obj [("kind", .str kind), ("pos", .int 0)]).Plain := by
    refine .obj (by decide : ["kind", "pos"].Nodup) ?_
    simp only [List.forall_mem_cons, List.not_mem_nil, false_implies, implies_true, and_true]
    exact ⟨.str kind, .int hzero⟩
  refine .obj (by decide : ["fileName", "text", "root"].Nodup) ?_
  simp only [List.forall_mem_cons, List.not_mem_nil, false_implies, implies_true, and_true]
  exact ⟨.str _, .str _, hnode⟩

/-- The bytes of a file with a tree of one node. -/
def rootBytes (kind : String) : List UInt8 :=
  Text.utf8 ((rootDocument kind).write .oneLine).toList

/-- A file with a tree of one node is taken if that is a source file. A tree of one block is refused
by the last check of its document, and this is reported. -/
theorem content_ofRoot :
    Readable (rootBytes "SourceFile") ∧ Readable (rootBytes "Block") ∧
    (∃ tree, (oneFile (rootBytes "SourceFile")).files.loadTree false ⟨"", ["w.json"]⟩ =
      .ok tree) ∧
    (∃ o, perform (oneFile (rootBytes "SourceFile")) .warning
        (some (.lint { inputs := [⟨"", ["w.json"]⟩] })) = .output o ∧
      (o.exit = 0 ∨ o.exit = 1)) ∧
    ∃ notes, perform (oneFile (rootBytes "Block")) .warning
        (some (.lint { inputs := [⟨"", ["w.json"]⟩] })) =
      .output ⟨1, "", (oneFile (rootBytes "Block")).noteRows .warning notes ++
        (oneFile (rootBytes "Block")).problemRow
          (.files (.load (.document ⟨.rootKind .block, some []⟩)))⟩ := by
  have hfollow (bytes : List UInt8) :
      (oneFile bytes).files.follow ⟨"", ["w.json"]⟩ = .ok (.file bytes) := rfl
  have hreadable (kind : String) : Readable (rootBytes kind) :=
    readable_utf8_write (plain_rootDocument kind) .oneLine
  have hload (kind : String) :=
    FileSystem.loadTree_utf8_write (plain_rootDocument kind) (hfollow (rootBytes kind)) false
  have hlint (kind : String) := (content_decides_ending (oneFile (rootBytes kind)) .warning
    ⟨"", ["w.json"]⟩ (rootBytes kind) (hfollow _)).2.2 { inputs := [⟨"", ["w.json"]⟩] } rfl
      (by decide) (by decide)
  obtain ⟨o, ho, hexit, _⟩ :=
    (hlint "SourceFile").1 (hreadable "SourceFile") fun hformat => by cases hformat
  obtain ⟨refused, hrefused, _, herror⟩ :=
    (hlint "Block").1 (hreadable "Block") fun hformat => by cases hformat
  obtain ⟨problem, notes, rfl, hproblem⟩ := herror _ (hload "Block")
  rw [hproblem rfl] at hrefused
  exact ⟨hreadable _, hreadable _, ⟨_, hload "SourceFile"⟩, ⟨o, ho, hexit⟩, notes, hrefused⟩

/-- A file with a byte that begins no character is not a tree, but this is not reported. -/
theorem perform_strayByte :
    perform (oneFile [0xff]) .warning (some (.lint { inputs := [⟨"", ["w.json"]⟩] })) =
      .crash (.lint (.files (.load (.encoding ⟨0, 0xff, 1, .startByte⟩)))) "" "" := by
  decide +kernel

end TreeLint.Command
