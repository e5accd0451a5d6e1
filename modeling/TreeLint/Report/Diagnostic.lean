import TreeLint.Json.Basic
import TreeLint.Report.Location

/-!
# Diagnostics

A diagnostic is a finding placed in a source: where it is, what to tell, which rule found it, how
severe it is, and perhaps a suggestion. It is the unit of every kind of output.
-/

namespace TreeLint

/-- How severe a diagnostic is. -/
inductive Severity where
  | error
  | warning
deriving DecidableEq

namespace Severity

/-- Both severities, the graver one first. -/
def all : List Severity :=
  [.error, .warning]

/-- The name of a severity. -/
def label : Severity → String
  | .error => "error"
  | .warning => "warning"

/-- The severity with a given name. -/
def ofLabel? (name : String) : Option Severity :=
  all.find? (·.label = name)

end Severity

/-- A finding placed in a source. -/
structure Diagnostic where
  fileName : String
  line : Int
  column : Int
  message : String
  code : String := ""
  rule : String := ""
  severity : Severity := .warning
  offset : Int := 0
  suggestion : Option String := none
deriving DecidableEq

namespace Diagnostic

/-- Whether a diagnostic is an error. -/
def isError (d : Diagnostic) : Bool :=
  d.severity == .error

/-- The place of a diagnostic. -/
def location (d : Diagnostic) : Location :=
  ⟨d.line, d.column, d.offset, some d.fileName⟩

/-- A diagnostic in one line. -/
def display (d : Diagnostic) : String :=
  s!"{d.fileName} ({d.line},{d.column}): {d.message}"

/-- A diagnostic as data. -/
def toJson (d : Diagnostic) : Json :=
  .obj [("fileName", .str d.fileName), ("line", .int d.line), ("column", .int d.column),
    ("message", .str d.message), ("code", .str d.code), ("rule", .str d.rule),
    ("severity", .str d.severity.label), ("suggestion", .ofText? d.suggestion)]

end Diagnostic

/-- The suggestion of a diagnostic, unless it is empty. -/
def Diagnostic.hint? (d : Diagnostic) : Option String :=
  d.suggestion.filter fun text => !text.isEmpty

/-- Diagnostics as plain text, one after the other. -/
def renderText (diagnostics : List Diagnostic) : String :=
  "\n".intercalate (diagnostics.map Diagnostic.display)

/-- Place a finding at an offset of a source. -/
def Diagnostic.place (fileName : String) (lines : Text.LineMap) (offset : Int) (message : String)
    (code rule : String) (severity : Severity) (suggestion : Option String) :
    Except Text.OffsetError Diagnostic :=
  match lines.position offset with
  | .ok position =>
    .ok ⟨fileName, position.line, position.column, message, code, rule, severity, offset,
      suggestion⟩
  | .error e => .error e

end TreeLint
