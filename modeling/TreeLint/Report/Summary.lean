import TreeLint.Json.Writer
import TreeLint.Report.Diagnostic

/-!
# Summaries and reports

A summary counts diagnostics by severity and by code, codes in order of first appearance. The
report of a file holds its diagnostics, their summary, and the checks that failed. It is written
with an optional indentation, and not at all if there is no room for the indentation or a number in
it is too long.
-/

namespace TreeLint

/-- Counts over a list of diagnostics. -/
structure Summary where
  total : Nat
  errors : Nat
  warnings : Nat
  byCode : Table String Nat
deriving DecidableEq

namespace Summary

/-- Count one more diagnostic of a code. -/
def countCode (counts : Table String Nat) (d : Diagnostic) : Table String Nat :=
  counts.set d.code ((counts.get? d.code).getD 0 + 1)

/-- The summary of a list of diagnostics. -/
def ofDiagnostics (diagnostics : List Diagnostic) : Summary :=
  let errors := diagnostics.countP Diagnostic.isError
  { total := diagnostics.length
    errors := errors
    warnings := diagnostics.length - errors
    byCode := diagnostics.foldl countCode [] }

/-- A summary as data. -/
def toJson (summary : Summary) : Json :=
  .obj [("total", .ofNat summary.total), ("errors", .ofNat summary.errors),
    ("warnings", .ofNat summary.warnings),
    ("by_rule", .obj (summary.byCode.map fun row => (row.1, .ofNat row.2)))]

end Summary

/-- The report of one file as data. Failed checks are given by their texts. -/
def reportJson (fileName : String) (diagnostics : List Diagnostic) (failures : List String) :
    Json :=
  .obj [("file", .str fileName), ("diagnostics", .arr (diagnostics.map Diagnostic.toJson)),
    ("summary", (Summary.ofDiagnostics diagnostics).toJson),
    ("ruleFailures", .ofTexts failures)]

/-- Why a report is not written: there is no such indentation, or a number in it is too long. -/
inductive ReportError where
  | indentation (error : Text.CopyError)
  | number (error : Json.WriteError)
deriving DecidableEq

/-- The wording of a report that is not written. -/
def ReportError.message : ReportError → String
  | .indentation error => error.message
  | .number error => error.message

/-- The report of one file as a document, with an optional indentation. The indentation is made
before anything is written. -/
def renderReport (indent : Option Int) (fileName : String) (diagnostics : List Diagnostic)
    (failures : List String) : Except ReportError String := do
  let layout ← (Json.Layout.ofIndent indent).mapError .indentation
  ((reportJson fileName diagnostics failures).encode layout).mapError .number

end TreeLint
