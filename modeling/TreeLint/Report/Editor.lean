import TreeLint.Json.Writer
import TreeLint.Report.Diagnostic
import TreeLint.Text.Blank

/-!
# Diagnostics for editors

Editors take diagnostics in the form of the Language Server Protocol: a range between two
positions that count lines and characters from zero, a message, a severity by number, a code and
a source. The range covers the token at the place of the diagnostic when the source is at hand,
and one character otherwise.
-/

namespace TreeLint.Editor

/-- The largest line or character that the protocol can carry. -/
def maxCoordinate : Int := 2147483647

/-- The two coordinates of a position. -/
inductive Axis where
  | line
  | character
deriving DecidableEq

/-- A coordinate that the protocol cannot carry. -/
structure RangeError where
  axis : Axis
  value : Int
deriving DecidableEq

/-- The wording of a coordinate out of range. -/
def RangeError.message (e : RangeError) : String :=
  let axis := match e.axis with
    | .line => "line"
    | .character => "character"
  s!"Position.{axis} should be in range [0:{maxCoordinate}], but was {e.value}."

/-- A position counted from zero. -/
structure Position where
  line : Int
  character : Int
deriving DecidableEq

/-- A position whose coordinates the protocol can carry; the line is looked at first. -/
def Position.make (line character : Int) : Except RangeError Position :=
  if maxCoordinate < line then .error ⟨.line, line⟩
  else if maxCoordinate < character then .error ⟨.character, character⟩
  else .ok ⟨line, character⟩

/-- A position as data. -/
def Position.toJson (p : Position) : Json :=
  .obj [("line", .int p.line), ("character", .int p.character)]

/-- The characters, other than white space, that end a token. -/
def delimiters : List Char :=
  ['(', ')', '[', ']', '{', '}', ',', ':', ';', '=', '<', '>']

/-- Whether a character ends a token. -/
def endsToken (c : Char) : Bool :=
  Text.isBlank c || delimiters.contains c

/-- The end of the token that starts at a character of a line; it has at least one character. -/
def tokenEnd (line : List Char) (character : Nat) : Nat :=
  character + max 1 ((line.drop character).takeWhile fun c => !endsToken c).length

/-- A diagnostic in the form of the protocol. -/
structure EditorDiagnostic where
  start : Position
  stop : Position
  message : String
  severity : Severity
  code : String
deriving DecidableEq

/-- The number of a severity. -/
def severityNumber : Severity → Nat
  | .error => 1
  | .warning => 2

/-- The message together with the suggestion, if there is one. -/
def fullMessage (d : Diagnostic) : String :=
  match d.hint? with
  | some hint => s!"{d.message}\n\nhint: {hint}"
  | none => d.message

/-- Bring a diagnostic into the form of the protocol. -/
def ofDiagnostic (lines : Option Text.LineMap) (d : Diagnostic) :
    Except RangeError EditorDiagnostic := do
  let line := max 0 (d.line - 1)
  let character := (d.column - 1).toNat
  let stop := match lines with
    | some lines => tokenEnd (lines.lineChars d.line) character
    | none => character + 1
  let first ← Position.make line character
  let last ← Position.make line stop
  return ⟨first, last, fullMessage d, d.severity, d.code⟩

/-- Bring diagnostics into the form of the protocol; the first that cannot be decides. -/
def ofDiagnostics (lines : Option Text.LineMap) :
    List Diagnostic → Except RangeError (List EditorDiagnostic)
  | [] => .ok []
  | d :: rest => do
    let first ← ofDiagnostic lines d
    return first :: (← ofDiagnostics lines rest)

/-- A diagnostic of the protocol as data; an empty code is left out. -/
def EditorDiagnostic.toJson (d : EditorDiagnostic) : Json :=
  .obj ([("range", .obj [("start", d.start.toJson), ("end", d.stop.toJson)]),
      ("message", .str d.message), ("severity", .ofNat (severityNumber d.severity))] ++
    (if d.code.isEmpty then [] else [("code", .str d.code)]) ++ [("source", .str "typelint")])

/-- Diagnostics in the form of the protocol as data. -/
def diagnosticsJson (lines : Option Text.LineMap) (diagnostics : List Diagnostic) :
    Except RangeError Json := do
  return .arr ((← ofDiagnostics lines diagnostics).map EditorDiagnostic.toJson)

/-- Why a document for an editor is not written: a coordinate is out of range, or there is no such
indentation. -/
inductive RenderError where
  | range (error : RangeError)
  | indentation (error : Text.CopyError)
deriving DecidableEq

/-- The wording of a document that is not written. -/
def RenderError.message : RenderError → String
  | .range error => error.message
  | .indentation error => error.message

/-- Diagnostics in the form of the protocol as a document, with an optional indentation. Its numbers
are all within range, so that they can be written. -/
def render (indent : Option Int) (lines : Option Text.LineMap) (diagnostics : List Diagnostic) :
    Except RenderError String := do
  let json ← (diagnosticsJson lines diagnostics).mapError .range
  let layout ← (Json.Layout.ofIndent indent).mapError .indentation
  return json.write layout

end TreeLint.Editor
