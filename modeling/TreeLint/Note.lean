/-!
# Notes about a run

Notes tell about the linter itself, not about the linted source. They are collected as data in the
order in which they arise, and shown or dropped by their importance.
-/

namespace TreeLint

/-- The importance of a note. -/
inductive Importance where
  | debug
  | info
  | warning
  | error
deriving DecidableEq

namespace Importance

/-- All degrees, least important first. -/
def all : List Importance :=
  [.debug, .info, .warning, .error]

/-- The name of a degree. -/
def label : Importance → String
  | .debug => "DEBUG"
  | .info => "INFO"
  | .warning => "WARNING"
  | .error => "ERROR"

/-- The rank of a degree. -/
def rank : Importance → Nat
  | .debug => 0
  | .info => 1
  | .warning => 2
  | .error => 3

/-- The degree with a given name. -/
def ofLabel? (name : String) : Option Importance :=
  all.find? (·.label = name)

end Importance

/-- A note about a run. -/
structure Note where
  importance : Importance
  text : String
deriving DecidableEq

end TreeLint
