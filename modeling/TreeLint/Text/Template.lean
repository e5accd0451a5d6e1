import TreeLint.Text.Decimal
import TreeLint.Text.Quoted

/-!
# Message templates

A template is literal text with places for arguments. An empty pair of braces takes the next
argument, a number between braces takes the argument at that index, and a doubled brace stands for
itself. A template is read into segments up to its first defect, and filled from left to right, so
that a missing argument is found before a defect further on.
-/

namespace TreeLint.Text

/-- A defect in the writing of a template. -/
inductive TemplateDefect where
  | strayClose
  | strayOpen
  | unclosed
  | nestedOpen
  | hugeIndex
  | automaticThenManual
  | manualThenAutomatic
deriving DecidableEq

/-- The wording of a defect. -/
def TemplateDefect.message : TemplateDefect → String
  | .strayClose => "Single '\x7d' encountered in format string"
  | .strayOpen => "Single '\x7b' encountered in format string"
  | .unclosed => "expected '\x7d' before end of string"
  | .nestedOpen => "unexpected '\x7b' in field name"
  | .hugeIndex => "Too many decimal digits in format string"
  | .automaticThenManual =>
    "cannot switch from automatic field numbering to manual field specification"
  | .manualThenAutomatic =>
    "cannot switch from manual field specification to automatic field numbering"

/-- One piece of a template. -/
inductive Segment where
  | literal (c : Char)
  | automatic
  | numbered (index : Nat)
  | named (name : String)
  | defect (d : TemplateDefect)
deriving DecidableEq

/-- Why a template cannot be filled. -/
inductive TemplateError where
  | missingArgument (index : Nat)
  | unknownName (name : String)
  | malformed (d : TemplateDefect)
deriving DecidableEq

/-- The wording of a template that cannot be filled. -/
def TemplateError.message : TemplateError → String
  | .missingArgument index =>
    s!"Replacement index {index} out of range for positional args tuple"
  | .unknownName name => quoted name
  | .malformed d => d.message

/-- The largest argument index that a template may write. -/
def maxIndex : Nat := 9223372036854775807

/-- The meaning of the text between two braces. The digits that it begins with may not exceed the
largest index, whatever stands after them. -/
def fieldSegment (field : List Char) : Segment :=
  let digits := field.takeWhile isDecimal
  if field.isEmpty then .automatic
  else match readDecimal? digits with
    | some index =>
      if maxIndex < index then .defect .hugeIndex
      else if digits.length = field.length then .numbered index
      else .named (String.ofList field)
    | none => .named (String.ofList field)

mutual

/-- The segments of a template, up to its first defect. -/
def segments : List Char → List Segment
  | [] => []
  | '{' :: '{' :: rest => .literal '{' :: segments rest
  | '}' :: '}' :: rest => .literal '}' :: segments rest
  | ['{'] => [.defect .strayOpen]
  | '{' :: c :: rest => fieldSegments [] (c :: rest)
  | '}' :: _ => [.defect .strayClose]
  | c :: rest => .literal c :: segments rest

/-- The segments from inside a field, whose characters so far are given in reverse. -/
def fieldSegments (field : List Char) : List Char → List Segment
  | [] => [.defect .unclosed]
  | '}' :: rest => fieldSegment field.reverse :: segments rest
  | '{' :: _ => [.defect .nestedOpen]
  | c :: rest => fieldSegments (c :: field) rest

end

/-- Write a text so that a template holds it literally: every brace is doubled. -/
def doubleBraces : List Char → List Char
  | [] => []
  | c :: rest => if c = '{' ∨ c = '}' then c :: c :: doubleBraces rest else c :: doubleBraces rest

/-- Doubled braces are read as the text itself, whatever follows. -/
theorem segments_doubleBraces (text rest : List Char) :
    segments (doubleBraces text ++ rest) = text.map .literal ++ segments rest := by
  induction text with
  | nil => rfl
  | cons c text ih =>
    by_cases hopen : c = '{'
    · subst hopen
      simp [doubleBraces, segments, ih]
    · by_cases hclose : c = '}'
      · subst hclose
        simp [doubleBraces, segments, ih]
      · simp [doubleBraces, segments, hopen, hclose, ih]

/-- How the fields of a template have been numbered so far. -/
inductive Numbering where
  | unset
  | automatic (next : Nat)
  | manual
deriving DecidableEq

/-- The argument at an index. -/
def argument (args : List String) (index : Nat) : Except TemplateError (List Char) :=
  match args[index]? with
  | some arg => .ok arg.toList
  | none => .error (.missingArgument index)

/-- Fill the segments from left to right. Automatic and numbered fields may not be mixed. -/
def fillSegments (args : List String) : Numbering → List Segment → Except TemplateError (List Char)
  | _, [] => .ok []
  | numbering, .literal c :: rest => do
    return c :: (← fillSegments args numbering rest)
  | .manual, .automatic :: _ => .error (.malformed .manualThenAutomatic)
  | .unset, .automatic :: rest => do
    let arg ← argument args 0
    return arg ++ (← fillSegments args (.automatic 1) rest)
  | .automatic next, .automatic :: rest => do
    let arg ← argument args next
    return arg ++ (← fillSegments args (.automatic (next + 1)) rest)
  | .automatic _, .numbered _ :: _ => .error (.malformed .automaticThenManual)
  | .unset, .numbered index :: rest => do
    let arg ← argument args index
    return arg ++ (← fillSegments args .manual rest)
  | .manual, .numbered index :: rest => do
    let arg ← argument args index
    return arg ++ (← fillSegments args .manual rest)
  | _, .named name :: _ => .error (.unknownName name)
  | _, .defect d :: _ => .error (.malformed d)

/-- Fill a template with arguments. -/
def fill (template : String) (args : List String) : Except TemplateError String := do
  return String.ofList (← fillSegments args .unset (segments template.toList))

end TreeLint.Text
