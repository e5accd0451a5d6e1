import TreeLint.Table

/-!
# JSON values

Values as a document writes them. Whole numbers are exact and unbounded; a number with a fraction
or an exponent is kept by its spelling and is never a whole number. The fields of an object keep
the order in which their keys were first written.
-/

namespace TreeLint

/-- A JSON value. -/
inductive Json where
  | null
  | bool (b : Bool)
  | int (n : Int)
  | real (spelling : String)
  | str (s : String)
  | arr (items : List Json)
  | obj (fields : List (String × Json))

namespace Json

/-- The value of a field of an object. -/
def field? : Json → String → Option Json
  | .obj fields, key => Table.get? fields key
  | _, _ => none

/-- A text, or null when there is none. -/
def ofText? : Option String → Json
  | some s => .str s
  | none => .null

/-- A list of texts. -/
def ofTexts (texts : List String) : Json :=
  .arr (texts.map .str)

/-- A natural number. -/
def ofNat (n : Nat) : Json :=
  .int n

end Json

end TreeLint
