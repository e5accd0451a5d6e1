import TreeLint.Table
import TreeLint.Tree.Graph
import TreeLint.Types.Descriptor

/-!
# Type resolvers

A resolver names the type of a node or says why it cannot, and may look at all that hangs below the
node. Types are never inferred here: one resolver reads the annotation of the node itself, another
looks the node up in records kept by its number and can pass on to a second resolver. Other
resolvers may fail in ways of their own.
-/

namespace TreeLint.Types

/-- Why a node has no type: a blank annotation, a number without a record, or any other failure of a
resolver, given by its sort and its text. -/
inductive ResolveError where
  | blankType (node : Node)
  | unrecorded (node : Node)
  | other (sort text : String)
deriving DecidableEq

/-- The sort of failure that leaves a node without a type. -/
def ResolveError.sort : ResolveError → String
  | .blankType _ | .unrecorded _ => "TypeResolutionError"
  | .other sort _ => sort

/-- The wording of a node without a type. -/
def ResolveError.message : ResolveError → String
  | .blankType node => s!"empty type annotation on {node.display}"
  | .unrecorded node => s!"no type recorded for {node.display} (id {node.id})"
  | .other _ text => text

/-- Names the type of the node at a vertex. -/
abbrev Resolver := Vertex → Except ResolveError String

namespace Resolver

/-- The annotation of the node itself, normalised. A node without one has the type `any`; one that
is all white space is an error. -/
def declared : Resolver := fun vertex =>
  match vertex.node.declared with
  | none => .ok Keyword.any.descriptor
  | some written =>
    let descriptor := normalize written
    if descriptor.isEmpty then .error (.blankType vertex.node) else .ok descriptor

/-- The type recorded for the number of a node, as it stands; nodes without a record go to the
fallback if there is one. -/
def recorded (types : Int → Option String) (fallback : Option Resolver) : Resolver := fun vertex =>
  match types vertex.node.id with
  | some descriptor => .ok descriptor
  | none =>
    match fallback with
    | some other => other vertex
    | none => .error (.unrecorded vertex.node)

end Resolver

end TreeLint.Types
