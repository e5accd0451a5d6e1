import TreeLint.Command.Invocation
import TreeLint.Lint.Files
import TreeLint.Report.Editor
import TreeLint.Report.Pretty
import TreeLint.Report.Summary

/-!
# The lint command

All inputs must exist before anything is read. The levels come from the options: a denied category
first, then warned, denied and allowed rules, so that a later group wins over an earlier one. The
files are linted as a whole: when one fails nothing is written but the error. The exit code is one
if some diagnostic is an error. Some failures are reported with an exit code of one; the others
leave the program without an exit code of its own.
-/

namespace TreeLint.Command

/-- An option that names no known rule or category, or no rule at all. -/
inductive OptionError where
  | unknownCategory (name : String)
  | unknownRule (identifier : String)
  | missingRule
deriving DecidableEq

/-- The wording of an option that names nothing known. -/
def OptionError.message : OptionError → String
  | .unknownCategory name =>
    let valid := ", ".intercalate (Category.all.map Category.label)
    s!"Unknown category '{name}' (valid categories: {valid})"
  | .unknownRule identifier => s!"Unknown rule '{identifier}'"
  | .missingRule => "unhashable type: 'list'"

/-- Give a level to rules named by code or name. -/
def setNamed (registry : Registry) (level : Level) :
    Configuration → List (Option String) → Except OptionError Configuration
  | config, [] => .ok config
  | _, none :: _ => .error .missingRule
  | config, some identifier :: rest =>
    match registry.get? identifier with
    | some rule => setNamed registry level (config.set rule.info.code level) rest
    | none => .error (.unknownRule identifier)

/-- Deny all rules of the category given, if one is given; letter case does not matter. -/
def denyCategory (registry : Registry) (config : Configuration) :
    Option String → Except OptionError Configuration
  | none => .ok config
  | some name =>
    if name.isEmpty then .ok config
    else
      match Category.ofLabel? (String.ofList (Text.lowerCase name.toList)) with
      | some category => .ok (config.setCategory category .deny registry)
      | none => .error (.unknownCategory name)

/-- The configuration that the options ask for. -/
def configuration (registry : Registry) (settings : LintSettings) :
    Except OptionError Configuration := do
  let config : Configuration := { honorsDirectives := !settings.ignoresDirectives }
  let config ← denyCategory registry config settings.denyCategory
  let config ← setNamed registry .warn config settings.warn
  let config ← setNamed registry .deny config settings.deny
  setNamed registry .allow config settings.allow

/-- Diagnostics of one file with their source lines, and a count at the end. -/
def prettyReport (palette : Palette) (result : LintResult) : String :=
  if result.diagnostics.isEmpty then
    let tag := palette.paint .green "[ok]"
    s!"{tag} {result.fileName}: No lint issues found\n"
  else
    let lines := Text.LineMap.ofText result.text
    let summary := Summary.ofDiagnostics result.diagnostics
    String.join (result.diagnostics.map fun d => Pretty.render palette lines 1 d ++ "\n\n") ++
      s!"Found {summary.errors} error(s) and {summary.warnings} warning(s)\n"

/-- Diagnostics of one file in plain text. -/
def textReport (result : LintResult) : String :=
  if result.diagnostics.isEmpty then "" else renderText result.diagnostics ++ "\n"

/-- The reports of all files as one document. -/
def jsonReport (results : List LintResult) : String :=
  let report (result : LintResult) : Json :=
    reportJson result.fileName result.diagnostics
      (result.stats.failures.map RuleFailure.display)
  Json.write (.indented 2) (.arr (results.map report)) ++ "\n"

/-- The diagnostics of all files by file name, in the form for editors. Of files with the same name
the last one counts. -/
def editorTable (results : List LintResult) : Except Editor.RangeError (Table String Json) :=
  results.foldlM (fun table result => do
    let json ← Editor.diagnosticsJson (some (.ofText result.text)) result.diagnostics
    return table.set result.fileName json) []

/-- The diagnostics of all files as one document for editors. -/
def editorReport (results : List LintResult) : Except Editor.RangeError String := do
  return Json.write (.indented 2) (.obj (← editorTable results)) ++ "\n"

/-- What is written for the results. -/
def report (palette : Palette) (format : Format) (results : List LintResult) :
    Except Editor.RangeError String :=
  match format with
  | .text => .ok (String.join (results.map textReport))
  | .pretty => .ok (String.join (results.map (prettyReport palette)))
  | .json => .ok (jsonReport results)
  | .editor => editorReport results

/-- The notes about files on which checks failed. -/
def failureNotes (results : List LintResult) : List Note :=
  results.filterMap fun result =>
    match result.stats.failures.length with
    | 0 => none
    | n => some ⟨.warning, s!"{result.fileName}: {n} rule check(s) failed and were skipped"⟩

/-- The exit code for results. -/
def exitCode (results : List LintResult) : Nat :=
  if results.any LintResult.hasErrors then 1 else 0

/-- Why the lint command has nothing to write. -/
inductive LintFailure where
  | missing (path : Path)
  | path (e : FileError)
  | option (e : OptionError)
  | missingJobs
  | files (e : FilesError)
  | range (e : Editor.RangeError)
deriving DecidableEq

namespace LintFailure

/-- The wording of a failure. -/
def message : LintFailure → String
  | .missing input => s!"File not found: {input.display}"
  | .path e => e.message
  | .option e => e.message
  | .missingJobs => "'<=' not supported between instances of 'list' and 'int'"
  | .files e => e.text
  | .range e => e.message

/-- Whether a failure ends the program as a crash, not with an error of its own. -/
def isCrash : LintFailure → Bool
  | .missing _ => false
  | .path _ => true
  | .option .missingRule => true
  | .option _ => false
  | .missingJobs => true
  | .files (.load (.file e)) => e.fault = .nullCharacter
  | .files (.load (.encoding _)) => true
  | .files (.load (.longNumber _)) => true
  | .files _ => false
  | .range _ => true

end LintFailure

/-- How the lint command ends. -/
inductive LintEnd where
  | failed (e : LintFailure) (notes : List Note)
  | done (exit : Nat) (text : String) (notes : List Note)
deriving DecidableEq

/-- All inputs must exist; the first that does not decides. -/
def checkInputs (files : FileSystem) : List Path → Except LintFailure Unit
  | [] => .ok ()
  | path :: rest =>
    match files.pathExists path with
    | .ok true => checkInputs files rest
    | .ok false => .error (.missing path)
    | .error e => .error (.path e)

/-- The linter that the settings ask for. The inputs are looked at first, then the options, and the
number of jobs last. -/
def prepare (files : FileSystem) (registry : Registry) (settings : LintSettings) :
    Except LintFailure Linter := do
  checkInputs files settings.inputs
  let config ← (configuration registry settings).mapError .option
  if settings.jobs.isNone then .error .missingJobs
  else return { registry := registry, config := config }

/-- Write the results of linting. -/
def finish (palette : Palette) (format : Format) (results : List LintResult)
    (notes : List Note) : LintEnd :=
  match report palette format results with
  | .ok text => .done (exitCode results) text (notes ++ failureNotes results)
  | .error e => .failed (.range e) notes

/-- Run the lint command on the files of a file system. -/
def lint (files : FileSystem) (registry : Registry) (palette : Palette)
    (settings : LintSettings) : LintEnd :=
  match prepare files registry settings with
  | .error e => .failed e []
  | .ok linter =>
    match linter.lintFiles files settings.allowsUnknownKinds settings.inputs with
    | (.ok results, notes) => finish palette settings.format results notes
    | (.error e, notes) => .failed (.files e) notes

end TreeLint.Command
