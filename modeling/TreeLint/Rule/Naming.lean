import TreeLint.Text.Ascii
import TreeLint.Text.Decimal

/-!
# Names of variables

A name is in camel case when it begins with lower-case letters and goes on in segments: one
decimal digit, or an upper-case letter or digit with lower-case letters and digits after it. A
single upper-case letter may end it. The segments are recognised by a machine that follows all
readings of the name at once.
-/

namespace TreeLint.Naming

/-- Where a reading of a name stands. -/
inductive Phase where
  | first
  | lead
  | joint
  | head
  | tail
  | last
deriving DecidableEq

/-- Whether a name may end here. -/
def Phase.isFinal : Phase → Bool
  | .lead | .joint | .tail | .last => true
  | .first | .head => false

/-- The readings of a character that begins a segment, or ends the name. -/
def segmentPhases (c : Char) : List Phase :=
  (if Text.isDecimal c then [.joint] else []) ++
    (if Text.isUpper c || Text.isDigit c then [.head] else []) ++
    (if Text.isUpper c then [.last] else [])

/-- The readings of a character after a given phase. -/
def Phase.next (c : Char) : Phase → List Phase
  | .first => if Text.isLower c then [.lead] else []
  | .lead => (if Text.isLower c then [.lead] else []) ++ segmentPhases c
  | .joint => segmentPhases c
  | .head => if Text.isLower c || Text.isDigit c then [.tail] else []
  | .tail => (if Text.isLower c || Text.isDigit c then [.tail] else []) ++ segmentPhases c
  | .last => []

/-- The readings after one more character, each listed once. -/
def step (phases : List Phase) (c : Char) : List Phase :=
  (phases.flatMap (Phase.next c)).eraseDups

/-- Whether a name is in camel case: some reading of all its characters may end. -/
def isCamelCase (name : String) : Bool :=
  (name.toList.foldl step [.first]).any Phase.isFinal

/-- Whether a text begins with the word `type`, in any letter case. -/
def startsWithType : List Char → Bool
  | t :: y :: p :: e :: _ =>
    t.toLower == 't' && y.toLower == 'y' && p.toLower == 'p' && e.toLower == 'e'
  | _ => false

/-- Whether the word `type` occurs in a text, in any letter case. -/
def hasType : List Char → Bool
  | [] => false
  | c :: rest => startsWithType (c :: rest) || hasType rest

/-- Whether a name mentions a type. -/
def mentionsType (name : String) : Bool :=
  hasType name.toList

end TreeLint.Naming
