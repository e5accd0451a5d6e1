import TreeLint.Command.Program
import TreeLint.Proofs.Command.Reported

/-!
# The status of the lint command

The command ends with a status and output, or it crashes. Which of the two is told by the first
problem alone, and for editors also by the places of the diagnostics. With a problem the status is
one and nothing but the error is written; without one the status is one exactly if some diagnostic
is an error, and then something is written in every format.
-/

namespace TreeLint.Command

/-! ### Results -/

/-- Some diagnostic of some result is an error. -/
def HasError (results : List LintResult) : Prop :=
  ∃ result ∈ results, ∃ d ∈ result.diagnostics, d.severity = .error

/-- The exit code is one or zero. -/
theorem exitCode_eq (results : List LintResult) :
    exitCode results = 1 ∨ exitCode results = 0 := by
  unfold exitCode
  split
  · exact .inl rfl
  · exact .inr rfl

/-- The exit code is one exactly if there is an error. -/
theorem exitCode_eq_one_iff {results : List LintResult} :
    exitCode results = 1 ↔ HasError results := by
  simp [exitCode, HasError, LintResult.hasErrors, Diagnostic.isError]

/-- There is an error exactly if the errors in all summaries add up to more than none. -/
theorem hasError_iff_sum {results : List LintResult} :
    HasError results ↔
      0 < (results.map fun result => (Summary.ofDiagnostics result.diagnostics).errors).sum := by
  induction results with
  | nil => simp [HasError]
  | cons result rest ih =>
    have hfirst : 0 < (Summary.ofDiagnostics result.diagnostics).errors ↔
        ∃ d ∈ result.diagnostics, d.severity = .error := by
      simp [Summary.ofDiagnostics, List.countP_pos_iff, Diagnostic.isError]
    rw [List.map_cons, List.sum_cons, Nat.add_pos_iff_pos_or_pos, ← ih, hfirst]
    exact List.exists_mem_cons_iff _ _ _

/-- Texts are put together to the empty text only if all are empty. -/
theorem join_ne_empty {α : Type} {items : List α} {render : α → String} {item : α}
    (hitem : item ∈ items) (h : render item ≠ "") : String.join (items.map render) ≠ "" := by
  intro hempty
  have hlist := congrArg String.toList hempty
  rw [String.toList_join, String.toList_empty, List.flatMap_eq_nil_iff] at hlist
  exact h (String.toList_eq_nil_iff.mp (hlist _ (List.mem_map_of_mem hitem)))

/-- A text with a line end is not empty. -/
theorem append_lineEnd_ne_empty (text : String) : text ++ "\n" ≠ "" := by
  simp [String.append_eq_empty_iff]

/-- When there is an error something is written in every format. -/
theorem report_ne_empty {palette : Palette} {format : Format} {results : List LintResult}
    {text : String} (h : report palette format results = .ok text) (herror : HasError results) :
    text ≠ "" := by
  obtain ⟨result, hresult, d, hd, _⟩ := herror
  have hsome : ¬ result.diagnostics.isEmpty = true := by
    rw [List.isEmpty_iff]
    exact List.ne_nil_of_mem hd
  cases format with
  | text =>
    cases h
    refine join_ne_empty hresult ?_
    rw [textReport, if_neg hsome]
    exact append_lineEnd_ne_empty _
  | pretty =>
    cases h
    refine join_ne_empty hresult ?_
    rw [prettyReport, if_neg hsome]
    simp [String.append_eq_empty_iff]
  | json =>
    cases h
    exact append_lineEnd_ne_empty _
  | editor =>
    obtain ⟨table, _, rfl⟩ := report_editor_eq_ok_iff.mp h
    exact append_lineEnd_ne_empty _

/-! ### Endings -/

/-- Results can be written in every format, for editors if all diagnostics are in range. -/
theorem exists_report_iff {palette : Palette} {format : Format} {results : List LintResult} :
    (∃ text, report palette format results = .ok text) ↔
      (format = .editor → AllInRange results) := by
  cases format with
  | text => exact iff_of_true ⟨_, rfl⟩ nofun
  | pretty => exact iff_of_true ⟨_, rfl⟩ nofun
  | json => exact iff_of_true ⟨_, rfl⟩ nofun
  | editor => simp [exists_editor_report_iff]

/-- A problem as a row on the error stream. A missing input is reported without colour. -/
def Environment.problemRow (env : Environment) : LintFailure → String
  | .missing path => "Error: " ++ (LintFailure.missing path).message ++ "\n"
  | e => env.errorRow e.message

section Endings

variable {env : Environment} {settings : LintSettings} {e : LintFailure}

/-- A problem that is reported gives a status of one and is all that is written, with the notes made
before. Any other is a crash. -/
theorem perform_of_problem (h : firstProblem? env.files Registry.reference settings = some e)
    (threshold : Importance) :
    (e.IsReported → ∃ notes, perform env threshold (some (.lint settings)) =
      .output ⟨1, "", env.noteRows threshold notes ++ env.problemRow e⟩) ∧
    (¬ e.IsReported → ∃ notes, perform env threshold (some (.lint settings)) =
      .crash (.lint e) "" (env.noteRows threshold notes)) := by
  obtain ⟨notes, hlint⟩ := lint_of_firstProblem? h env.palette
  rw [perform, hlint]
  unfold lintEnding
  dsimp only
  constructor
  · intro hreported
    have hcrash : ¬ e.isCrash = true := by
      rw [isCrash_of_firstProblem? h]
      exact not_not_intro hreported
    rw [if_neg hcrash]
    refine ⟨notes, ?_⟩
    cases e with
    | missing path =>
      simp only [Environment.problemRow, ← String.append_assoc]
      rfl
    | _ => rfl
  · intro hreported
    rw [if_pos ((isCrash_of_firstProblem? h).mpr hreported)]
    exact ⟨notes, rfl⟩

/-- Without a problem the results are written, and an error among them decides on the status. Only
results that no editor can be given are a crash. -/
theorem perform_of_no_problem (h : firstProblem? env.files Registry.reference settings = none)
    (threshold : Importance) :
    ∃ results, Linted env.files Registry.reference settings results ∧
      (∀ text, report env.palette settings.format results = .ok text →
        ∃ notes, perform env threshold (some (.lint settings)) =
          .output ⟨exitCode results, text, env.noteRows threshold notes⟩) ∧
      (∀ e, report env.palette settings.format results = .error e →
        ∃ notes, perform env threshold (some (.lint settings)) =
          .crash (.lint (.range e)) "" (env.noteRows threshold notes)) := by
  obtain ⟨results, notes, hlinted, hlint⟩ := lint_of_no_problem h env.palette
  refine ⟨results, hlinted, fun text htext => ⟨notes ++ failureNotes results, ?_⟩,
    fun e he => ⟨notes, ?_⟩⟩
  · rw [perform, hlint, finish, htext]
    rfl
  · rw [perform, hlint, finish, he]
    rfl

/-- Output in spite of a problem is the report of this problem. -/
theorem output_of_problem {threshold : Importance} {o : Output}
    (h : firstProblem? env.files Registry.reference settings = some e)
    (houtput : perform env threshold (some (.lint settings)) = .output o) :
    ∃ notes, o = ⟨1, "", env.noteRows threshold notes ++ env.problemRow e⟩ := by
  obtain ⟨hreported, hcrash⟩ := perform_of_problem h threshold
  by_cases hcase : e.IsReported
  · obtain ⟨notes, hperform⟩ := hreported hcase
    rw [houtput] at hperform
    cases hperform
    exact ⟨notes, rfl⟩
  · obtain ⟨notes, hperform⟩ := hcrash hcase
    rw [houtput] at hperform
    cases hperform

/-- Output without a problem is what is written of the results. -/
theorem output_of_no_problem {threshold : Importance} {o : Output}
    (h : firstProblem? env.files Registry.reference settings = none)
    (houtput : perform env threshold (some (.lint settings)) = .output o) :
    ∃ results, Linted env.files Registry.reference settings results ∧
      report env.palette settings.format results = .ok o.stdout ∧
      o.exit = exitCode results := by
  obtain ⟨results, hlinted, hwritten, hcrash⟩ := perform_of_no_problem h threshold
  refine ⟨results, hlinted, ?_⟩
  cases hreport : report env.palette settings.format results with
  | ok text =>
    obtain ⟨notes, hperform⟩ := hwritten text hreport
    rw [houtput] at hperform
    cases hperform
    exact ⟨rfl, rfl⟩
  | error fault =>
    obtain ⟨notes, hperform⟩ := hcrash fault hreport
    rw [houtput] at hperform
    cases hperform

end Endings

section Settings

variable {files : FileSystem} {registry : Registry} {settings : LintSettings}

/-- The results of linting all inputs are determined. -/
theorem Linted.unique {results others : List LintResult}
    (h : Linted files registry settings results) (hothers : Linted files registry settings others) :
    results = others := by
  obtain ⟨config, hconfig, hresults⟩ := h
  obtain ⟨config', hconfig', hresults'⟩ := hothers
  rw [hconfig] at hconfig'
  cases hconfig'
  refine List.right_unique_forall₂' ?_ hresults hresults'
  intro path result other hresult hother
  rw [hresult] at hother
  cases hother
  rfl

/-- Neither the format nor the number of jobs changes the results. -/
theorem linted_with_format_jobs {format : Format} {jobs : Option Int} {results : List LintResult} :
    Linted files registry { settings with format := format, jobs := jobs } results ↔
      Linted files registry settings results :=
  Iff.rfl

/-- Neither the format nor the number of jobs is a problem. -/
theorem firstProblem?_with_format_jobs (hjobs : settings.jobs ≠ none) (format : Format)
    (jobs : Int) :
    firstProblem? files registry { settings with format := format, jobs := some jobs } =
      firstProblem? files registry settings := by
  obtain ⟨given, hgiven⟩ := Option.ne_none_iff_exists'.mp hjobs
  unfold firstProblem?
  rw [hgiven]
  rfl

end Settings

section Status

variable {env : Environment} {threshold : Importance} {settings : LintSettings} {o : Output}

/-- There is output exactly if the first problem is reported, and results for an editor are in
range. -/
theorem exists_output_iff :
    (∃ o, perform env threshold (some (.lint settings)) = .output o) ↔
      (∀ e, firstProblem? env.files Registry.reference settings = some e → e.IsReported) ∧
      (settings.format = .editor → ¬ HasProblem env.files Registry.reference settings →
        ∀ results, Linted env.files Registry.reference settings results → AllInRange results) := by
  rw [hasProblem_iff Registry.consistent_reference.1]
  cases hfirst : firstProblem? env.files Registry.reference settings with
  | some e =>
    obtain ⟨hreported, hcrash⟩ := perform_of_problem hfirst threshold
    simp only [Option.some.injEq, forall_eq', exists_eq', not_true, false_imp_iff,
      implies_true, and_true]
    constructor
    · rintro ⟨o, houtput⟩
      by_contra hcase
      obtain ⟨notes, hperform⟩ := hcrash hcase
      rw [houtput] at hperform
      cases hperform
    · intro hcase
      obtain ⟨notes, hperform⟩ := hreported hcase
      exact ⟨_, hperform⟩
  | none =>
    obtain ⟨results, hlinted, hwritten, _⟩ := perform_of_no_problem hfirst threshold
    constructor
    · rintro ⟨o, houtput⟩
      refine ⟨fun _ h => absurd h (Option.some_ne_none _).symm,
        fun hformat _ others hothers => ?_⟩
      obtain ⟨results, hlinted, hreport, _⟩ := output_of_no_problem hfirst houtput
      rw [hothers.unique hlinted]
      exact exists_report_iff.mp ⟨_, hreport⟩ hformat
    · rintro ⟨_, hrange⟩
      obtain ⟨text, htext⟩ := exists_report_iff.mpr fun hformat =>
        hrange hformat (fun ⟨_, h⟩ => absurd h (Option.some_ne_none _).symm) results hlinted
      obtain ⟨notes, hperform⟩ := hwritten text htext
      exact ⟨_, hperform⟩

/-- There is output for regular inputs and options. -/
theorem Regular.exists_output (hregular : Regular env.files settings) :
    ∃ o, perform env threshold (some (.lint settings)) = .output o :=
  exists_output_iff.mpr ⟨fun _ => hregular.isReported,
    fun hformat _ _ => hregular.allInRange Registry.consistent_reference.1 hformat⟩

/-- The status is the same in every format and with every number of jobs. -/
theorem exit_eq_of_format_jobs {other : Output} (hjobs : settings.jobs ≠ none) (format : Format)
    (jobs : Int) (houtput : perform env threshold (some (.lint settings)) = .output o)
    (hother : perform env threshold
      (some (.lint { settings with format := format, jobs := some jobs })) = .output other) :
    other.exit = o.exit := by
  have hsame : firstProblem? env.files Registry.reference
      { settings with format := format, jobs := some jobs } =
        firstProblem? env.files Registry.reference settings :=
    firstProblem?_with_format_jobs hjobs format jobs
  -- Both runs report a problem, or both come to the same results.
  cases hfirst : firstProblem? env.files Registry.reference settings with
  | some e =>
    obtain ⟨_, rfl⟩ := output_of_problem hfirst houtput
    obtain ⟨_, rfl⟩ := output_of_problem (hsame.trans hfirst) hother
    rfl
  | none =>
    obtain ⟨results, hlinted, _, hexit⟩ := output_of_no_problem hfirst houtput
    obtain ⟨others, hlinted', _, hexit'⟩ := output_of_no_problem (hsame.trans hfirst) hother
    rw [hexit, hexit', (linted_with_format_jobs.mp hlinted').unique hlinted]

end Status

/-- The command ends with a status and output exactly if the first problem, should there be one, is
reported, and results that an editor asks for are in range; regular inputs and options are always
so. The status is one with nothing on the output exactly if there is a problem, and then the first
one is reported. Otherwise all inputs are linted, and the status is one if there is an error and
zero if there is none. Neither the format nor the number of jobs has a say in it. -/
theorem lint_status (env : Environment) (threshold : Importance) (settings : LintSettings) :
    ((∃ o, perform env threshold (some (.lint settings)) = .output o) ↔
      (∀ e, firstProblem? env.files Registry.reference settings = some e → e.IsReported) ∧
      (settings.format = .editor → ¬ HasProblem env.files Registry.reference settings →
        ∀ results, Linted env.files Registry.reference settings results → AllInRange results)) ∧
    (Regular env.files settings →
      ∃ o, perform env threshold (some (.lint settings)) = .output o) ∧
    ∀ o, perform env threshold (some (.lint settings)) = .output o →
      (o.exit = 1 ∧ o.stdout = "" ↔ HasProblem env.files Registry.reference settings) ∧
      (HasProblem env.files Registry.reference settings →
        ∃ e notes, firstProblem? env.files Registry.reference settings = some e ∧
          o = ⟨1, "", env.noteRows threshold notes ++ env.problemRow e⟩) ∧
      (¬ HasProblem env.files Registry.reference settings →
        ∃ results, Linted env.files Registry.reference settings results ∧
          (o.exit = 1 ∨ o.exit = 0) ∧ (o.exit = 1 ↔ HasError results) ∧
          (o.exit = 1 ↔ 0 <
            (results.map fun result => (Summary.ofDiagnostics result.diagnostics).errors).sum)) ∧
      ∀ format jobs other, settings.jobs ≠ none →
        perform env threshold
            (some (.lint { settings with format := format, jobs := some jobs })) = .output other →
          other.exit = o.exit := by
  have hproblem : HasProblem env.files Registry.reference settings ↔ _ :=
    hasProblem_iff Registry.consistent_reference.1
  refine ⟨exists_output_iff, Regular.exists_output, fun o houtput => ?_⟩
  refine ⟨?_, fun hsome => ?_, fun hnone => ?_, fun format jobs other hjobs =>
    exit_eq_of_format_jobs hjobs format jobs houtput⟩
  · rw [hproblem]
    constructor
    · rintro ⟨hexit, hstdout⟩
      -- A status of one that comes from results goes with an error, and errors are written.
      by_contra hnone
      obtain ⟨results, _, hreport, hcode⟩ :=
        output_of_no_problem (Option.eq_none_iff_forall_ne_some.mpr fun e h => hnone ⟨e, h⟩) houtput
      exact report_ne_empty hreport (exitCode_eq_one_iff.mp (hcode ▸ hexit)) hstdout
    · rintro ⟨e, he⟩
      obtain ⟨_, rfl⟩ := output_of_problem he houtput
      exact ⟨rfl, rfl⟩
  · obtain ⟨e, he⟩ := hproblem.mp hsome
    obtain ⟨notes, ho⟩ := output_of_problem he houtput
    exact ⟨e, notes, he, ho⟩
  · rw [hproblem, not_exists, ← Option.eq_none_iff_forall_ne_some] at hnone
    obtain ⟨results, hlinted, _, hexit⟩ := output_of_no_problem hnone houtput
    rw [hexit]
    exact ⟨results, hlinted, exitCode_eq results, exitCode_eq_one_iff,
      exitCode_eq_one_iff.trans hasError_iff_sum⟩

/-- Surroundings in which there are no files. -/
def noFiles : Environment where
  files := (⟨[]⟩ : Store).fileSystem
  isTerminal := false
  noColor := none
  stamp := ""

/-- A missing input is reported. -/
theorem lint_status_missing :
    Regular noFiles.files { inputs := [⟨"", ["a.json"]⟩] } ∧
    ∃ o, perform noFiles .warning (some (.lint { inputs := [⟨"", ["a.json"]⟩] })) = .output o ∧
      o.exit = 1 ∧ o.stdout = "" := by
  have hfollow : noFiles.files.follow ⟨"", ["a.json"]⟩ = .error .notFound := by rfl
  have hregular : Regular noFiles.files { inputs := [⟨"", ["a.json"]⟩] } := by
    refine ⟨by decide, by decide, ?_, ?_, nofun⟩
    · intro path hpath fault hfault
      rw [List.mem_singleton.mp hpath, hfollow] at hfault
      cases hfault
      rfl
    · intro path hpath bytes hbytes
      rw [List.mem_singleton.mp hpath, hfollow] at hbytes
      cases hbytes
  obtain ⟨_, houtput, hstatus⟩ := lint_status noFiles .warning { inputs := [⟨"", ["a.json"]⟩] }
  obtain ⟨o, ho⟩ := houtput hregular
  exact ⟨hregular, o, ho, (hstatus o ho).1.mpr (.input (List.mem_singleton_self _) hfollow)⟩

/-- A single part that is too long cannot be followed. -/
theorem follow_long_part {store : Store} (hroot : store.entry? [] = some .directory)
    {part : String} (hdots : part ≠ "..") (hnull : '\x00' ∉ part.toList)
    (hlong : maxPartBytes < part.utf8ByteSize) (hpath : part.utf8ByteSize ≤ maxPathBytes) :
    store.fileSystem.follow ⟨"", [part]⟩ = .error .nameTooLong := by
  have hdisplay : (⟨"", [part]⟩ : Path).display = part := by
    simp [Path.display, String.intercalate_singleton]
  have hstep : store.step (.inside []) part = .error .nameTooLong := by
    simp [Store.step, hroot, hdots, hlong]
  rw [FileSystem.follow, hdisplay, if_neg hnull, if_neg (Nat.not_lt.mpr hpath)]
  simp [Store.fileSystem, Store.find, hstep, bind, Except.bind]

/-- A path of one part, which has one byte more than a part may have. -/
def longName : Path :=
  ⟨"", [String.ofList (List.replicate (maxPartBytes + 1) 'b')]⟩

/-- An input whose name is too long does not exist, but this is not reported. -/
theorem perform_longName :
    noFiles.files.follow longName = .error .nameTooLong ∧
    perform noFiles .warning (some (.lint { inputs := [longName] })) =
      .crash (.lint (.path ⟨.nameTooLong, longName⟩)) "" "" := by
  have hfollow : noFiles.files.follow longName = .error .nameTooLong := by
    refine follow_long_part rfl ?_ ?_ (by decide +kernel) (by decide +kernel)
    · intro h
      have hlength := congrArg String.length h
      rw [String.length_ofList, List.length_replicate] at hlength
      cases hlength
    · simp [String.toList_ofList]
  have hprepare : ∀ registry, prepare noFiles.files registry { inputs := [longName] } =
      .error (.path ⟨.nameTooLong, longName⟩) := by
    intro registry
    rw [prepare, checkInputs, FileSystem.pathExists, hfollow]
    rfl
  refine ⟨hfollow, ?_⟩
  rw [perform, lint, hprepare]
  rfl

end TreeLint.Command
