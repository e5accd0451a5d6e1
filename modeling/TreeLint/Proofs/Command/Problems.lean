import TreeLint.Command.Lint
import TreeLint.Proofs.Lint.Document

/-!
# The first problem of a lint command

Before there are results, an input may be missing, an option may name nothing known, or a file may
fail. The command stops at the first problem: missing inputs come before options, options before
files, and each of these is looked at in the order given. Here this order is written down as one
search through lists, next to the bare statement that there is a problem somewhere, and the command
is shown to fail with the first problem or to lint all of its inputs.
-/

namespace TreeLint

section Problem

variable {ε δ α β : Type}

/-- The error with which a computation ends, if it does not succeed. -/
def problem? : Except ε α → Option ε
  | .ok _ => none
  | .error e => some e

/-- A success has no problem. -/
@[simp] theorem problem?_ok (a : α) : problem? (.ok a : Except ε α) = none := rfl

/-- The problem of a failure is its error. -/
@[simp] theorem problem?_error (e : ε) : problem? (.error e : Except ε α) = some e := rfl

/-- Renaming errors renames the problem. -/
theorem problem?_mapError (x : Except ε α) (f : ε → δ) :
    problem? (x.mapError f) = (problem? x).map f := by
  cases x <;> rfl

/-- There is no problem exactly with a success. -/
theorem problem?_eq_none_iff {x : Except ε α} : problem? x = none ↔ ∃ a, x = .ok a := by
  cases x <;> simp

/-- The problem is the error. -/
theorem problem?_eq_some_iff {x : Except ε α} {e : ε} : problem? x = some e ↔ x = .error e := by
  cases x <;> simp

/-- Of two steps the first decides, if what can be wrong with the second does not depend on it. -/
theorem problem?_bind {x : Except ε α} {f : α → Except ε β} {second : Option ε}
    (h : ∀ a, problem? (f a) = second) : problem? (x >>= f) = (problem? x).or second := by
  cases x with
  | error e => rfl
  | ok a => exact h a

end Problem

namespace Command

/-! ### Inputs and options -/

/-- What is wrong with an input before it is opened: nothing stands at its path, or that cannot be
told. -/
def absence? (files : FileSystem) (path : Path) : Option LintFailure :=
  match files.follow path with
  | .ok _ => none
  | .error fault => some (if fault.isUndecided then .path ⟨fault, path⟩ else .missing path)

/-- Nothing is wrong with an input at whose path something stands. -/
theorem absence?_eq_none_iff {files : FileSystem} {path : Path} :
    absence? files path = none ↔ ∃ entry, files.follow path = .ok entry := by
  unfold absence?
  split <;> simp_all

/-- The inputs are looked at in order. -/
theorem problem?_checkInputs (files : FileSystem) (inputs : List Path) :
    problem? (checkInputs files inputs) = inputs.findSome? (absence? files) := by
  induction inputs with
  | nil => rfl
  | cons path rest ih =>
    rw [List.findSome?_cons, ← ih, checkInputs, absence?, FileSystem.pathExists]
    cases files.follow path with
    | ok entry => rfl
    | error fault => cases hfault : fault.isUndecided <;> simp [hfault]

/-- The identifiers of rules in the options, in the order in which they are looked up. -/
def LintSettings.identifiers (settings : LintSettings) : List (Option String) :=
  settings.warn ++ settings.deny ++ settings.allow

/-- What is wrong with the name of a category: it is none of the known names in any letter case. -/
def unknownCategory? : Option String → Option OptionError
  | none => none
  | some name =>
    if name = "" ∨ String.ofList (Text.lowerCase name.toList) ∈ Category.all.map Category.label then
      none
    else some (.unknownCategory name)

/-- What is wrong with an identifier of a rule: it is missing, or no rule has it. -/
def unknownRule? (registry : Registry) : Option String → Option OptionError
  | none => some .missingRule
  | some identifier =>
    if (registry.get? identifier).isSome then none else some (.unknownRule identifier)

/-- The first problem with the options: the category comes before the rules. -/
def optionProblem? (registry : Registry) (settings : LintSettings) : Option OptionError :=
  (unknownCategory? settings.denyCategory).or
    (settings.identifiers.findSome? (unknownRule? registry))

/-- The identifiers of an option are looked up in order. -/
theorem problem?_setNamed (registry : Registry) (level : Level) (config : Configuration)
    (identifiers : List (Option String)) :
    problem? (setNamed registry level config identifiers) =
      identifiers.findSome? (unknownRule? registry) := by
  induction identifiers generalizing config with
  | nil => rfl
  | cons identifier rest ih =>
    rw [List.findSome?_cons]
    cases identifier with
    | none => rfl
    | some identifier =>
      rw [setNamed, unknownRule?]
      cases registry.get? identifier with
      | none => rfl
      | some rule => exact ih _

/-- The category of an option is looked up without regard to letter case. -/
theorem problem?_denyCategory (registry : Registry) (config : Configuration)
    (name : Option String) :
    problem? (denyCategory registry config name) = unknownCategory? name := by
  cases name with
  | none => rfl
  | some name =>
    have hknown : String.ofList (Text.lowerCase name.toList) ∈ Category.all.map Category.label ↔
        (Category.ofLabel? (String.ofList (Text.lowerCase name.toList))).isSome = true := by
      simp [Category.ofLabel?, List.find?_isSome]
    simp only [denyCategory, unknownCategory?, hknown, String.isEmpty_iff]
    by_cases hempty : name = ""
    · simp [hempty]
    · simp only [hempty, if_false, false_or]
      cases Category.ofLabel? (String.ofList (Text.lowerCase name.toList)) <;> rfl

/-- The options are looked at in order. -/
theorem problem?_configuration (registry : Registry) (settings : LintSettings) :
    problem? (configuration registry settings) = optionProblem? registry settings := by
  rw [configuration, optionProblem?, LintSettings.identifiers, List.findSome?_append,
    List.findSome?_append, Option.or_assoc, ← problem?_denyCategory registry
      { honorsDirectives := !settings.ignoresDirectives }]
  refine problem?_bind fun config => ?_
  rw [← problem?_setNamed registry .warn config]
  refine problem?_bind fun config => ?_
  rw [← problem?_setNamed registry .deny config]
  refine problem?_bind fun config => ?_
  exact problem?_setNamed registry .allow config settings.allow

/-! ### Files -/

/-- What is wrong with a file that is linted as the options ask. -/
def fileProblem? (files : FileSystem) (registry : Registry) (settings : LintSettings)
    (path : Path) : Option FilesError :=
  (configuration registry settings).toOption.bind fun config =>
    problem? (({ registry, config } : Linter).lintFile files settings.allowsUnknownKinds path).1

/-- The first problem of a lint command: first the inputs that are missing, then the options, and
then the files. -/
def firstProblem? (files : FileSystem) (registry : Registry) (settings : LintSettings) :
    Option LintFailure :=
  (settings.inputs.findSome? (absence? files)).or <|
    ((optionProblem? registry settings).map .option).or <|
      (if settings.jobs.isNone then some .missingJobs else none).or <|
        (settings.inputs.findSome? (fileProblem? files registry settings)).map .files

/-- The results of linting all inputs as the options ask. -/
def Linted (files : FileSystem) (registry : Registry) (settings : LintSettings)
    (results : List LintResult) : Prop :=
  ∃ config, configuration registry settings = .ok config ∧
    List.Forall₂ (fun path result => (({ registry, config } : Linter).lintFile files
      settings.allowsUnknownKinds path).1 = .ok result) settings.inputs results

/-- Files are linted in order; the first that fails decides. -/
theorem problem?_lintFiles (linter : Linter) (files : FileSystem) (allowUnknown : Bool)
    (paths : List Path) :
    problem? (linter.lintFiles files allowUnknown paths).1 =
      paths.findSome? fun path => problem? (linter.lintFile files allowUnknown path).1 := by
  induction paths with
  | nil => rfl
  | cons path rest ih =>
    rw [List.findSome?_cons, ← ih, Linter.lintFiles]
    rcases linter.lintFile files allowUnknown path with ⟨e | result, notes⟩
    · rfl
    · rcases linter.lintFiles files allowUnknown rest with ⟨e | results, more⟩ <;> rfl

/-- If files have results, each of them has one. -/
theorem forall₂_of_lintFiles {linter : Linter} {files : FileSystem} {allowUnknown : Bool}
    {paths : List Path} {results : List LintResult}
    (h : (linter.lintFiles files allowUnknown paths).1 = .ok results) :
    List.Forall₂ (fun path result => (linter.lintFile files allowUnknown path).1 = .ok result)
      paths results := by
  induction paths generalizing results with
  | nil =>
    cases h
    exact .nil
  | cons path rest ih =>
    rw [Linter.lintFiles] at h
    rcases hfile : linter.lintFile files allowUnknown path with ⟨e | result, notes⟩
    · simp [hfile] at h
    · rcases hfiles : linter.lintFiles files allowUnknown rest with ⟨e | others, more⟩
      · simp [hfile, hfiles] at h
      · simp only [hfile, hfiles, Except.ok.injEq] at h
        subst h
        exact .cons (congrArg Prod.fst hfile) (ih (congrArg Prod.fst hfiles))

/-- Getting ready looks at the inputs, at the options, and at the number of jobs. -/
theorem problem?_prepare (files : FileSystem) (registry : Registry) (settings : LintSettings) :
    problem? (prepare files registry settings) =
      (settings.inputs.findSome? (absence? files)).or
        (((optionProblem? registry settings).map .option).or
          (if settings.jobs.isNone then some .missingJobs else none)) := by
  rw [prepare, ← problem?_checkInputs, ← problem?_configuration, ← problem?_mapError]
  refine problem?_bind fun _ => problem?_bind fun config => ?_
  split <;> rfl

/-- The linter that the settings ask for has the registry given and the levels of the options. -/
theorem linter_of_prepare {files : FileSystem} {registry : Registry} {settings : LintSettings}
    {linter : Linter} (h : prepare files registry settings = .ok linter) :
    ∃ config, configuration registry settings = .ok config ∧ linter = { registry, config } := by
  rw [prepare] at h
  obtain ⟨_, _, h⟩ := Document.bind_eq_ok_iff.mp h
  obtain ⟨config, hconfig, h⟩ := Document.bind_eq_ok_iff.mp h
  refine ⟨config, Document.mapError_eq_ok_iff.mp hconfig, ?_⟩
  split at h
  · cases h
  · cases h
    rfl

section Lint

variable {files : FileSystem} {registry : Registry} {settings : LintSettings}

/-- What is wrong with files is what the linter with the levels of the options meets first. -/
theorem findSome?_fileProblem? {config : Configuration}
    (h : configuration registry settings = .ok config) (paths : List Path) :
    paths.findSome? (fileProblem? files registry settings) =
      problem? (({ registry, config } : Linter).lintFiles files settings.allowsUnknownKinds
        paths).1 := by
  rw [problem?_lintFiles]
  unfold fileProblem?
  rw [h]
  rfl

/-- The first problem is one of getting ready, or else one with a file. -/
theorem firstProblem?_eq :
    firstProblem? files registry settings = (problem? (prepare files registry settings)).or
      ((settings.inputs.findSome? (fileProblem? files registry settings)).map .files) := by
  rw [problem?_prepare, Option.or_assoc, Option.or_assoc, firstProblem?]

/-- The command fails with the first problem. -/
theorem lint_of_firstProblem? {e : LintFailure}
    (h : firstProblem? files registry settings = some e) (palette : Palette) :
    ∃ notes, lint files registry palette settings = .failed e notes := by
  rw [firstProblem?_eq, Option.or_eq_some_iff] at h
  rcases h with h | ⟨hprepare, h⟩
  · rw [problem?_eq_some_iff] at h
    exact ⟨[], by rw [lint, h]⟩
  · obtain ⟨linter, hprepare⟩ := problem?_eq_none_iff.mp hprepare
    obtain ⟨config, hconfig, rfl⟩ := linter_of_prepare hprepare
    rw [findSome?_fileProblem? hconfig, Option.map_eq_some_iff] at h
    obtain ⟨cause, hcause, rfl⟩ := h
    rw [lint, hprepare]
    dsimp only
    rcases hfiles : ({ registry, config } : Linter).lintFiles files settings.allowsUnknownKinds
      settings.inputs with ⟨e | results, notes⟩
    · rw [hfiles] at hcause
      cases hcause
      exact ⟨notes, rfl⟩
    · rw [hfiles] at hcause
      cases hcause

/-- Without a problem the command lints all inputs and writes their results. -/
theorem lint_of_no_problem (h : firstProblem? files registry settings = none)
    (palette : Palette) :
    ∃ results notes, Linted files registry settings results ∧
      lint files registry palette settings = finish palette settings.format results notes := by
  rw [firstProblem?_eq, Option.or_eq_none_iff] at h
  obtain ⟨hprepare, h⟩ := h
  obtain ⟨linter, hprepare⟩ := problem?_eq_none_iff.mp hprepare
  obtain ⟨config, hconfig, rfl⟩ := linter_of_prepare hprepare
  rw [findSome?_fileProblem? hconfig, Option.map_eq_none_iff, problem?_eq_none_iff] at h
  obtain ⟨results, hresults⟩ := h
  refine ⟨results, (({ registry, config } : Linter).lintFiles files settings.allowsUnknownKinds
    settings.inputs).2, ⟨config, hconfig, forall₂_of_lintFiles hresults⟩, ?_⟩
  rw [lint, hprepare]
  dsimp only
  rw [← Prod.mk.eta (p := ({ registry, config } : Linter).lintFiles files
    settings.allowsUnknownKinds settings.inputs), hresults]

/-! ### Some problem -/

/-- Somewhere there is a problem: an input that does not exist, an option that names no known
category or rule or lacks its value, or a file that cannot be loaded or linted. -/
inductive HasProblem (files : FileSystem) (registry : Registry) (settings : LintSettings) : Prop
  | input {path : Path} {fault : FileFault} (hpath : path ∈ settings.inputs)
      (hfault : files.follow path = .error fault)
  | category {name : String} (hname : settings.denyCategory = some name) (hgiven : name ≠ "")
      (hunknown : String.ofList (Text.lowerCase name.toList) ∉ Category.all.map Category.label)
  | rule {identifier : String} (hidentifier : some identifier ∈ settings.identifiers)
      (hunknown : ∀ rule ∈ registry.rules, ¬ rule.info.IsCalled identifier)
  | gap (hgap : none ∈ settings.identifiers ∨ settings.jobs = none)
  | file {config : Configuration} {path : Path} {e : FilesError} (hpath : path ∈ settings.inputs)
      (hconfig : configuration registry settings = .ok config)
      (hfile : (({ registry, config } : Linter).lintFile files settings.allowsUnknownKinds
        path).1 = .error e)

/-- There is no first problem exactly if each search finds none. -/
theorem firstProblem?_eq_none_iff :
    firstProblem? files registry settings = none ↔
      (∀ path ∈ settings.inputs, ∃ entry, files.follow path = .ok entry) ∧
      unknownCategory? settings.denyCategory = none ∧
      (∀ identifier ∈ settings.identifiers, unknownRule? registry identifier = none) ∧
      settings.jobs ≠ none ∧
      ∀ path ∈ settings.inputs, fileProblem? files registry settings path = none := by
  simp [firstProblem?, optionProblem?, Option.or_eq_none_iff, absence?_eq_none_iff, and_assoc]

/-- There is a problem exactly if there is a first one. -/
theorem hasProblem_iff (hregistry : registry.Consistent) :
    HasProblem files registry settings ↔ ∃ e, firstProblem? files registry settings = some e := by
  -- Each kind of problem is what one of the five searches looks for.
  rw [← Option.ne_none_iff_exists', ne_eq, firstProblem?_eq_none_iff]
  constructor
  · rintro hproblem ⟨hinputs, hcategory, hrules, hjobs, hfiles⟩
    cases hproblem with
    | @input path fault hpath hfault =>
      obtain ⟨entry, hentry⟩ := hinputs path hpath
      rw [hfault] at hentry
      cases hentry
    | @category name hname hgiven hunknown =>
      rw [hname, unknownCategory?, if_neg (by simp [hgiven, hunknown])] at hcategory
      cases hcategory
    | @rule identifier hidentifier hunknown =>
      have hrule := hrules _ hidentifier
      rw [unknownRule?, hregistry.get?_eq_none_iff.mpr hunknown] at hrule
      cases hrule
    | gap hgap =>
      rcases hgap with hgap | hgap
      · cases hrules _ hgap
      · exact hjobs hgap
    | @file config path e hpath hconfig hfile =>
      have hnone := hfiles path hpath
      rw [fileProblem?, hconfig] at hnone
      rw [Except.toOption, Option.bind_some, hfile] at hnone
      cases hnone
  · intro hnone
    by_contra hproblem
    refine hnone ⟨fun path hpath => ?_, ?_, fun identifier hidentifier => ?_, fun hjobs => ?_,
      fun path hpath => ?_⟩
    · cases hfollow : files.follow path with
      | ok entry => exact ⟨entry, rfl⟩
      | error fault => exact absurd (.input hpath hfollow) hproblem
    · cases hname : settings.denyCategory with
      | none => rfl
      | some name =>
        rw [unknownCategory?, if_pos]
        by_contra hunknown
        rw [not_or] at hunknown
        exact hproblem (.category hname hunknown.1 hunknown.2)
    · cases identifier with
      | none => exact absurd (.gap (.inl hidentifier)) hproblem
      | some identifier =>
        rw [unknownRule?, if_pos]
        rw [← Option.ne_none_iff_isSome]
        intro hunknown
        exact hproblem (.rule hidentifier (hregistry.get?_eq_none_iff.mp hunknown))
    · exact hproblem (.gap (.inr hjobs))
    · unfold fileProblem?
      cases hconfig : configuration registry settings with
      | error e => rfl
      | ok config =>
        refine problem?_eq_none_iff.mpr ?_
        cases hfile : (({ registry, config } : Linter).lintFile files
            settings.allowsUnknownKinds path).1 with
        | ok result => exact ⟨result, rfl⟩
        | error e => exact absurd (.file hpath hconfig hfile) hproblem

end Lint

end Command

end TreeLint
