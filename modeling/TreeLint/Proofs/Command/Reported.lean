import TreeLint.Proofs.Command.Documents
import TreeLint.Proofs.Command.Problems
import TreeLint.Proofs.Lint.Loading
import TreeLint.Proofs.Lint.Reports

/-!
# Problems that are reported

Most problems of a lint command are written as errors; the others end the program as a crash. Behind
the search for missing inputs, a file can only refuse to be opened, hold what is no tree, be linted
in vain, or not be readable, and the last is a crash. For regular inputs and options every problem
is reported, and the results can always be written.
-/

namespace TreeLint.Command

/-- Problems whose error is written. The others end the program as a crash: a path of which it
cannot be told whether anything stands there, an option without its value, a file that encodes no
text, a whole number with too many digits. -/
def LintFailure.IsReported : LintFailure → Prop
  | .missing _ | .option (.unknownCategory _) | .option (.unknownRule _) => True
  | .files (.load (.file _)) | .files (.load (.json _ _)) | .files (.load (.document _)) => True
  | .files (.run _) => True
  | .path _ | .option .missingRule | .missingJobs | .range _ => False
  | .files (.load (.encoding _)) | .files (.load (.longNumber _)) => False

section Problems

variable {files : FileSystem} {registry : Registry} {settings : LintSettings} {e : LintFailure}

/-- The first problem is one with an input, with an option, with the number of jobs, or with a file
that is there. -/
theorem firstProblem?_cases (h : firstProblem? files registry settings = some e) :
    (∃ path ∈ settings.inputs, absence? files path = some e) ∨
    (∃ cause, optionProblem? registry settings = some cause ∧ e = .option cause) ∨
    (settings.jobs = none ∧ e = .missingJobs) ∨
    ∃ path ∈ settings.inputs, ∃ entry, files.follow path = .ok entry ∧
      ∃ config cause, (({ registry, config } : Linter).lintFile files
        settings.allowsUnknownKinds path).1 = .error cause ∧ e = .files cause := by
  simp only [firstProblem?, Option.or_eq_some_iff, Option.map_eq_some_iff] at h
  rcases h with h | ⟨hinputs, ⟨cause, hcause, rfl⟩ | ⟨_, h | ⟨_, cause, hcause, rfl⟩⟩⟩
  · obtain ⟨path, hpath, habsence⟩ := List.exists_of_findSome?_eq_some h
    exact .inl ⟨path, hpath, habsence⟩
  · exact .inr (.inl ⟨cause, hcause, rfl⟩)
  · split at h
    · cases h
      exact .inr (.inr (.inl ⟨by simpa using ‹settings.jobs.isNone = true›, rfl⟩))
    · cases h
  · obtain ⟨path, hpath, hfile⟩ := List.exists_of_findSome?_eq_some hcause
    obtain ⟨entry, hentry⟩ :=
      absence?_eq_none_iff.mp (List.findSome?_eq_none_iff.mp hinputs path hpath)
    obtain ⟨config, _, hfile⟩ := Option.bind_eq_some_iff.mp hfile
    exact .inr (.inr (.inr ⟨path, hpath, entry, hentry, config, cause,
      problem?_eq_some_iff.mp hfile, rfl⟩))

/-- What is wrong with a path at which something stands: it cannot be opened as a file, linting its
tree fails, it has an error of the format, or it is not readable. -/
theorem cause_of_lintFile {linter : Linter} {allowUnknown : Bool} {path : Path} {entry : FileEntry}
    {cause : FilesError} (hentry : files.follow path = .ok entry)
    (h : (linter.lintFile files allowUnknown path).1 = .error cause) :
    (∃ fault, cause = .load (.file ⟨fault, path⟩) ∧ fault ≠ .nullCharacter) ∨
    (∃ fault, cause = .run fault) ∨ (∃ fault, cause = .load fault ∧ fault.IsFormat) ∨
    ∃ bytes, files.follow path = .ok (.file bytes) ∧ ¬ Readable bytes ∧
      ((∃ fault, cause = .load (.encoding fault)) ∨
        ∃ digits, cause = .load (.longNumber digits)) := by
  rw [Linter.lintFile] at h
  cases entry with
  | directory =>
    have hbytes : files.readBytes path = .error ⟨.isDirectory, path⟩ := by
      rw [FileSystem.readBytes, hentry]
    rw [FileSystem.loadTree_of_readBytes hbytes] at h
    cases h
    exact .inl ⟨_, rfl, fun hnull => by cases hnull⟩
  | closed code reason =>
    have hbytes : files.readBytes path = .error ⟨.system code reason, path⟩ := by
      rw [FileSystem.readBytes, hentry]
    rw [FileSystem.loadTree_of_readBytes hbytes] at h
    cases h
    exact .inl ⟨_, rfl, fun hnull => by cases hnull⟩
  | file bytes =>
    by_cases hreadable : Readable bytes
    · rcases FileSystem.loadTree_of_readable hentry hreadable allowUnknown with
        ⟨tree, hload⟩ | ⟨fault, hload, hformat⟩
      · rw [hload] at h
        dsimp only at h
        cases hrun : (linter.run tree.source (some tree.resolver)).outcome with
        | ok result => simp [hrun, Except.mapError] at h
        | error fault =>
          rw [hrun] at h
          cases h
          exact .inr (.inl ⟨fault, rfl⟩)
      · rw [hload] at h
        cases h
        exact .inr (.inr (.inl ⟨fault, rfl, hformat⟩))
    · refine .inr (.inr (.inr ⟨bytes, hentry, hreadable, ?_⟩))
      rcases FileSystem.loadTree_of_not_readable hentry hreadable allowUnknown with
        ⟨_, fault, hload⟩ | ⟨_, digits, _, _, hload⟩
      · rw [hload] at h
        cases h
        exact .inl ⟨fault, rfl⟩
      · rw [hload] at h
        cases h
        exact .inr ⟨digits, rfl⟩

/-- Behind the search for missing inputs no path is refused for a null character. -/
theorem fault_of_firstProblem? {fault : FileError}
    (h : firstProblem? files registry settings = some (.files (.load (.file fault)))) :
    fault.fault ≠ .nullCharacter := by
  rcases firstProblem?_cases h with ⟨path, _, habsence⟩ | ⟨_, _, h⟩ | ⟨_, h⟩ |
    ⟨path, _, entry, hentry, config, cause, hcause, h⟩
  · unfold absence? at habsence
    split at habsence
    · cases habsence
    · split at habsence <;> cases habsence
  · cases h
  · cases h
  · cases h
    rcases cause_of_lintFile hentry hcause with ⟨_, h, hnull⟩ | ⟨_, h⟩ | ⟨_, h, hformat⟩ |
      ⟨_, _, _, ⟨_, h⟩ | ⟨_, h⟩⟩ <;> cases h
    · exact hnull
    · cases hformat

/-- A first problem that is not reported is a crash. -/
theorem isCrash_of_firstProblem? (h : firstProblem? files registry settings = some e) :
    e.isCrash = true ↔ ¬ e.IsReported := by
  cases e with
  | option cause => cases cause <;> simp [LintFailure.isCrash, LintFailure.IsReported]
  | files cause =>
    cases cause with
    | run fault => simp [LintFailure.isCrash, LintFailure.IsReported]
    | load cause =>
      cases cause with
      -- Only here does it matter that the problem is the first one.
      | file fault => simp [LintFailure.isCrash, LintFailure.IsReported, fault_of_firstProblem? h]
      | _ => simp [LintFailure.isCrash, LintFailure.IsReported]
  | _ => simp [LintFailure.isCrash, LintFailure.IsReported]

end Problems

/-! ### Inputs for which the command always ends with a status -/

/-- Options that have their values, and inputs of which it can be told whether anything stands
there, whose files are readable, and whose texts are not too long for an editor if it is an editor
that asks. -/
structure Regular (files : FileSystem) (settings : LintSettings) : Prop where
  identifiers_given : none ∉ settings.identifiers
  jobs_given : settings.jobs ≠ none
  inputs_decided : ∀ path ∈ settings.inputs, ∀ fault, files.follow path = .error fault →
    fault.isUndecided = false
  files_readable : ∀ path ∈ settings.inputs, ∀ bytes,
    files.follow path = .ok (.file bytes) → Readable bytes
  texts_fit : settings.format = .editor → ∀ path ∈ settings.inputs, ∀ tree,
    files.loadTree settings.allowsUnknownKinds path = .ok tree →
      tree.text.length < Editor.maxCoordinate

section Regular

variable {files : FileSystem} {registry : Registry} {settings : LintSettings}

/-- Options that name no known category or rule are reported, if no identifier is missing. -/
theorem isReported_of_optionProblem? (hgiven : none ∉ settings.identifiers) {cause : OptionError}
    (h : optionProblem? registry settings = some cause) :
    (LintFailure.option cause).IsReported := by
  rw [optionProblem?, Option.or_eq_some_iff] at h
  rcases h with hcategory | ⟨_, hrule⟩
  · unfold unknownCategory? at hcategory
    split at hcategory
    · cases hcategory
    · split at hcategory <;> cases hcategory
      trivial
  · obtain ⟨identifier, hidentifier, hunknown⟩ := List.exists_of_findSome?_eq_some hrule
    cases identifier with
    | none => exact absurd hidentifier hgiven
    | some identifier =>
      rw [unknownRule?] at hunknown
      split at hunknown <;> cases hunknown
      trivial

/-- Every problem with regular inputs and options is reported. -/
theorem Regular.isReported (hregular : Regular files settings) {e : LintFailure}
    (h : firstProblem? files registry settings = some e) : e.IsReported := by
  rcases firstProblem?_cases h with ⟨path, hpath, habsence⟩ | ⟨cause, hcause, rfl⟩ | ⟨hjobs, _⟩ |
    ⟨path, hpath, entry, hentry, config, cause, hcause, rfl⟩
  · unfold absence? at habsence
    split at habsence
    · cases habsence
    · next fault hfault =>
      rw [hregular.inputs_decided path hpath fault hfault] at habsence
      cases habsence
      trivial
  · exact isReported_of_optionProblem? hregular.identifiers_given hcause
  · exact absurd hjobs hregular.jobs_given
  · rcases cause_of_lintFile hentry hcause with ⟨fault, rfl, _⟩ | ⟨fault, rfl⟩ |
      ⟨fault, rfl, hformat⟩ | ⟨bytes, hbytes, hunreadable, _⟩
    · trivial
    · trivial
    · cases fault <;> trivial
    · exact absurd (hregular.files_readable path hpath bytes hbytes) hunreadable

/-- The results for regular inputs can be carried to an editor that asks for them. -/
theorem Regular.allInRange (hregular : Regular files settings) (hregistry : registry.Consistent)
    (hformat : settings.format = .editor) {results : List LintResult}
    (h : Linted files registry settings results) : AllInRange results := by
  obtain ⟨config, _, hresults⟩ := h
  intro result hresult d hd
  obtain ⟨path, hpath, hlint⟩ := exists_mem_of_forall₂ (List.Forall₂.flip hresults) hresult
  rw [Linter.lintFile] at hlint
  cases hload : files.loadTree settings.allowsUnknownKinds path with
  | error e => simp [hload] at hlint
  | ok tree =>
    rw [hload] at hlint
    have hrun := Document.mapError_eq_ok_iff.mp hlint
    obtain ⟨htext, hplaced⟩ := Linter.placed_of_run hregistry hrun
    obtain ⟨offset, position, hposition, hline, hcolumn⟩ := hplaced d hd
    rw [htext]
    exact Editor.inRange_of_position (hregular.texts_fit hformat path hpath tree hload) hposition
      hline hcolumn

end Regular

end TreeLint.Command
