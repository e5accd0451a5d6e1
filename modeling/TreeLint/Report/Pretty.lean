import TreeLint.Report.Color
import TreeLint.Report.Diagnostic
import TreeLint.Text.Copies

/-!
# Diagnostics with their source line

A diagnostic is shown over several rows: a header, its place, the source line with its number
behind a gutter, a row that underlines the place, and a suggestion. Source rows are left out when
the line does not exist. A diagnostic that was not placed in the text can have a column too large
for a row; it is refused where its source rows would be shown.
-/

namespace TreeLint

/-- The colour of a severity. -/
def Severity.color : Severity → Color
  | .error => .red
  | .warning => .yellow

namespace Pretty

/-- A text moved to the right end of a field of at least the given width. -/
def padLeft (width : Nat) (text : String) : String :=
  String.ofList (List.replicate (width - text.length) ' ') ++ text

/-- Severity, code and message of a diagnostic. -/
def header (palette : Palette) (d : Diagnostic) : String :=
  let tag := if d.code.isEmpty then d.severity.label else s!"{d.severity.label}[{d.code}]"
  s!"{palette.on d.severity.color}{palette.paint .bold tag}: {palette.paint .bold d.message}"

/-- The place of a diagnostic. -/
def placeRow (palette : Palette) (d : Diagnostic) : String :=
  let arrow := palette.paint .blue "-->"
  s!"  {arrow} {d.location.display}"

/-- The gutter of a row without a line number. -/
def gutter (palette : Palette) : String :=
  "   " ++ palette.paint .blue "|"

/-- The source line behind its number. -/
def sourceRow (palette : Palette) (lines : Text.LineMap) (d : Diagnostic) : String :=
  let number := padLeft 3 (toString d.line) ++ " |"
  s!"{palette.paint .blue number} {lines.lineText d.line}"

/-- The row that underlines the place, over at least one character. -/
def underlineRow (palette : Palette) (span : Int) (d : Diagnostic) : String :=
  let padding := Text.copies (d.column - 1) ' '
  let underline := palette.paint d.severity.color (Text.copies (max 1 span) '^')
  s!"{gutter palette} {padding}{underline}"

/-- Whether the line of a diagnostic exists, so that its source is shown. -/
def showsSource (lines : Text.LineMap) (d : Diagnostic) : Bool :=
  1 ≤ d.line && d.line ≤ lines.lineCount

/-- The rows that show the source, if the line exists. -/
def sourceRows (palette : Palette) (lines : Text.LineMap) (span : Int) (d : Diagnostic) :
    List String :=
  if showsSource lines d then
    [gutter palette, sourceRow palette lines d, underlineRow palette span d, gutter palette]
  else []

/-- The row with the suggestion, if there is one. -/
def helpRows (palette : Palette) (d : Diagnostic) : List String :=
  match d.hint? with
  | some hint =>
    let sign := palette.paint .blue "="
    let title := palette.paint .green "help:"
    [s!"   {sign} {title} {hint}"]
  | none => []

/-- All rows of a diagnostic. -/
def rows (palette : Palette) (lines : Text.LineMap) (span : Int) (d : Diagnostic) : List String :=
  header palette d :: placeRow palette d ::
    (sourceRows palette lines span d ++ helpRows palette d)

/-- A diagnostic with its source line. -/
def render (palette : Palette) (lines : Text.LineMap) (span : Int) (d : Diagnostic) : String :=
  "\n".intercalate (rows palette lines span d)

/-- Refuse a diagnostic whose column, or else whose span, is too large for the row that underlines
its place, if that row is shown. -/
def checkSize (lines : Text.LineMap) (span : Int) (d : Diagnostic) : Except Text.CopyError Unit :=
  if showsSource lines d then do
    Text.checkCount (d.column - 1)
    Text.checkCount (max 1 span)
  else .ok ()

/-- A diagnostic with its source line, unless it is refused. -/
def renderChecked (palette : Palette) (lines : Text.LineMap) (span : Int) (d : Diagnostic) :
    Except Text.CopyError String := do
  checkSize lines span d
  return render palette lines span d

end Pretty

end TreeLint
