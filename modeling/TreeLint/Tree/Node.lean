import TreeLint.Text.Quoted
import TreeLint.Tree.Kind

/-!
# Syntax nodes

A node carries what a front end recorded at one place of the source: its kind, where it starts and
ends, its own type annotation, the name that it binds and its number. How nodes hang together is
not part of a node.
-/

namespace TreeLint

/-- One node of a syntax tree. The annotation is the explicit type as written in the source. -/
structure Node where
  kind : Kind
  start : Int
  stop : Option Int := none
  declared : Option String := none
  name : Option String := none
  id : Int := -1
deriving DecidableEq

/-- A node as messages show it: kind, name if there is one, and start. -/
def Node.display (node : Node) : String :=
  match node.name with
  | some name => s!"<{node.kind.label} {Text.quoted name} @{node.start}>"
  | none => s!"<{node.kind.label} @{node.start}>"

/-- A value in the place of a node that is no node. -/
inductive Stray where
  | nothing
  | flag (b : Bool)
  | number (n : Int)
  | text (s : String)
deriving DecidableEq

/-- A stray value as messages show it. -/
def Stray.display : Stray → String
  | .nothing => "None"
  | .flag true => "True"
  | .flag false => "False"
  | .number n => toString n
  | .text s => Text.quoted s

end TreeLint
