import TreeLint.Text.Line

/-!
# Places in a source and errors that name them

A location is a line and a column, perhaps with the name of the file. An error is shown by its
message, with the location before it and the path inside a document after it where they are known.
-/

namespace TreeLint

/-- A place in a source. Line and column count from one, the offset from zero. -/
structure Location where
  line : Int
  column : Int
  offset : Int := 0
  fileName : Option String := none
deriving DecidableEq

/-- A location as messages show it; an empty file name is left out. -/
def Location.display (location : Location) : String :=
  let place := s!"{location.line}:{location.column}"
  match location.fileName with
  | none => place
  | some fileName => if fileName.isEmpty then place else s!"{fileName}:{place}"

/-- The location of an offset. -/
def Text.LineMap.location (map : LineMap) (offset : Int) (fileName : Option String) :
    Except OffsetError Location :=
  match map.position offset with
  | .ok position => .ok ⟨position.line, position.column, offset, fileName⟩
  | .error e => .error e

/-- An error as it is shown to users. -/
structure Problem where
  message : String
  location : Option Location := none
  path : Option String := none
deriving DecidableEq

/-- The whole text of an error; an empty path is left out. -/
def Problem.text (problem : Problem) : String :=
  let placed := match problem.location with
    | none => problem.message
    | some location => s!"[{location.display}] {problem.message}"
  match problem.path with
  | none => placed
  | some path => if path.isEmpty then placed else s!"{placed} (at {path})"

end TreeLint
