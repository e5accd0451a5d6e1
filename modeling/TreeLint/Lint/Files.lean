import TreeLint.Files
import TreeLint.Json.Reader
import TreeLint.Lint.Run
import TreeLint.Text.Utf8

/-!
# Linting files

A tree file is read as text, as JSON, and as a tree document, and each step has errors of its own;
a number with too many digits stands apart from the other errors of JSON. Files are linted in the
order given; the first that cannot be loaded or linted ends the whole, and results of earlier files
are then not given.
-/

namespace TreeLint

/-- Why a tree file cannot be loaded. -/
inductive LoadError where
  | file (e : FileError)
  | encoding (e : Text.Utf8Error)
  | json (path : Path) (e : Json.PlacedFault)
  | longNumber (digits : Nat)
  | document (e : DocumentError)
deriving DecidableEq

/-- A refused document as it is shown. -/
def DocumentError.problem (e : DocumentError) : Problem :=
  { message := e.fault.message, path := e.path.map NodePath.display }

/-- The text of a file that cannot be loaded. -/
def LoadError.text : LoadError → String
  | .file e => e.message
  | .encoding e => e.message
  | .json path e => s!"{path.display}: invalid JSON: {e.message}"
  | .longNumber digits => Json.longNumberMessage digits
  | .document e => e.problem.text

/-- The error of a file whose text is not a document. -/
def LoadError.ofRead (path : Path) : Json.ReadError → LoadError
  | .fault e => .json path e
  | .longNumber digits => .longNumber digits

/-- Load the tree file at a path. -/
def FileSystem.loadTree (files : FileSystem) (allowUnknown : Bool) (path : Path) :
    Except LoadError LoadedTree := do
  let bytes ← (files.readBytes path).mapError .file
  let text ← (Text.decodeFile bytes).mapError .encoding
  let json ← (Json.read text).mapError (.ofRead path)
  (Document.decode allowUnknown json).mapError .document

/-- Why a list of files has no results. -/
inductive FilesError where
  | load (e : LoadError)
  | run (e : RunError)
deriving DecidableEq

/-- The text of a file that cannot be loaded or linted. -/
def FilesError.text : FilesError → String
  | .load e => e.text
  | .run e => e.message

namespace Linter

/-- Load and lint the file at a path. -/
def lintFile (linter : Linter) (files : FileSystem) (allowUnknown : Bool) (path : Path) :
    Except FilesError LintResult × List Note :=
  match files.loadTree allowUnknown path with
  | .error e => (.error (.load e), [])
  | .ok loaded =>
    let run := linter.run loaded.source (some loaded.resolver)
    (run.outcome.mapError .run, run.notes)

/-- Load and lint files in order, with the notes of all files that were begun. -/
def lintFiles (linter : Linter) (files : FileSystem) (allowUnknown : Bool) :
    List Path → Except FilesError (List LintResult) × List Note
  | [] => (.ok [], [])
  | path :: rest =>
    match linter.lintFile files allowUnknown path with
    | (.error e, notes) => (.error e, notes)
    | (.ok result, notes) =>
      match linter.lintFiles files allowUnknown rest with
      | (.error e, more) => (.error e, notes ++ more)
      | (.ok results, more) => (.ok (result :: results), notes ++ more)

end Linter

end TreeLint
