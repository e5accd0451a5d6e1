import TreeLint.Rule.Basic
import TreeLint.Text.Ascii
import TreeLint.Text.Blank

/-!
# Directives in comments

A comment of the linted source can set the level of a rule. A directive is two slashes, the word
`typelint:`, a level, and an identifier between parentheses, with white space allowed between these
parts and at both ends, and nothing else. A line holds a directive, well formed or not, from the
first place where slashes and the word stand.
-/

namespace TreeLint

/-- A well-formed directive: the level to set, and the rule by code or name. -/
structure Directive where
  level : Level
  identifier : String
deriving DecidableEq

/-- A text that should be a directive and is none. -/
structure DirectiveError where
  text : String
deriving DecidableEq

/-- The wording of a malformed directive. -/
def DirectiveError.message (e : DirectiveError) : String :=
  s!"Invalid lint directive: {e.text}"

namespace Directive

/-- Drop a fixed text from the front. -/
def dropText? : List Char → List Char → Option (List Char)
  | [], text => some text
  | _ :: _, [] => none
  | c :: wanted, d :: text => if c = d then dropText? wanted text else none

/-- A fixed text is dropped exactly from the texts that begin with it. -/
theorem dropText?_eq_some_iff {wanted text rest : List Char} :
    dropText? wanted text = some rest ↔ text = wanted ++ rest := by
  induction wanted generalizing text with
  | nil => simp [dropText?]
  | cons c wanted ih =>
    cases text with
    | nil => simp [dropText?]
    | cons d text =>
      by_cases h : c = d
      · simp [dropText?, h, ih]
      · simp [dropText?, h, Ne.symm h]

/-- Drop white space from the front. -/
def dropBlanks (text : List Char) : List Char :=
  text.dropWhile Text.isBlank

/-- The word that marks a directive. -/
def keyword : List Char :=
  "typelint:".toList

/-- Drop the two slashes, white space and the keyword that begin a directive. -/
def dropMarker? (text : List Char) : Option (List Char) := do
  let rest ← dropText? ['/', '/'] text
  dropText? keyword (dropBlanks rest)

/-- The part of a line from its first marker on. -/
def find? : List Char → Option (List Char)
  | [] => none
  | c :: rest => if (dropMarker? (c :: rest)).isSome then some (c :: rest) else find? rest

/-- The characters of an identifier. -/
def isIdChar (c : Char) : Bool :=
  Text.isLower c || Text.isUpper c || Text.isDigit c || c == '_' || c == '-'

/-- Drop the name of a level and the parenthesis after it. -/
def dropLevel? (text : List Char) : Option (Level × List Char) :=
  Level.all.findSome? fun level =>
    (dropText? (level.label.toList ++ ['(']) text).map fun rest => (level, rest)

/-- Read a directive that has no white space at its ends. -/
def read? (text : List Char) : Option Directive := do
  let rest ← dropMarker? text
  let (level, rest) ← dropLevel? (dropBlanks rest)
  let identifier := rest.takeWhile isIdChar
  if identifier.isEmpty then none
  else
    let rest ← dropText? [')'] (rest.dropWhile isIdChar)
    if rest.all Text.isBlank then some ⟨level, String.ofList identifier⟩ else none

/-- Read a directive; white space at the ends does not count. -/
def parse (text : List Char) : Except DirectiveError Directive :=
  let trimmed := Text.trim text
  match read? trimmed with
  | some directive => .ok directive
  | none => .error ⟨String.ofList trimmed⟩

end Directive

end TreeLint
