import TreeLint.Json.Basic
import TreeLint.Tree.Graph
import TreeLint.Types.Resolver

/-!
# Tree documents

A front end hands over its result as a JSON document: the name and text of the source and a tree
of node objects. A node object holds a kind and a start, and may hold an end, a number, an
annotation, a name, the type found by the front end, and child objects. Nodes without a number get
the least natural number that no node before them carries; numbers that are written twice are
refused. The nodes of a document are decoded in pre-order, and the first violated condition is
reported together with the path of its node.
-/

namespace TreeLint

/-- A condition of the document format that is violated. -/
inductive DocumentFault where
  | notObject
  | fileName
  | text
  | noRoot
  | nodeNotObject
  | noKind
  | unknownKind (name : String)
  | noStart
  | badOffset (key : String)
  | badId
  | duplicateId (id : Int)
  | notText (key : String)
  | childrenNotList
  | rootKind (kind : Kind)
deriving DecidableEq

/-- The wording of a violated condition. -/
def DocumentFault.message : DocumentFault → String
  | .notObject => "tree document must be an object"
  | .fileName => "'fileName' must be a string"
  | .text => "'text' must be a string"
  | .noRoot => "tree document has no 'root'"
  | .nodeNotObject => "node must be an object"
  | .noKind => "node is missing a 'kind' string"
  | .unknownKind name => s!"unknown node kind '{name}'"
  | .noStart => "node is missing 'pos'"
  | .badOffset key => s!"'{key}' must be a non-negative integer"
  | .badId => "'id' must be an integer"
  | .duplicateId id => s!"duplicate node id {id}"
  | .notText key => s!"'{key}' must be a string"
  | .childrenNotList => "'children' must be a list"
  | .rootKind kind => s!"root must be a SourceFile node, got {kind.label}"

/-- The way from the root to a node: which child to take at each step. -/
abbrev NodePath := List Nat

/-- A path as messages show it. -/
def NodePath.display (path : NodePath) : String :=
  path.foldl (fun text index => s!"{text}.children[{index}]") "root"

/-- A violated condition, with the path of the node that violates it if it concerns a node. -/
structure DocumentError where
  fault : DocumentFault
  path : Option NodePath
deriving DecidableEq

/-- Numbers in use, and a natural number below which all are in use. -/
structure IdPool where
  used : List Int
  next : Nat
deriving DecidableEq

namespace IdPool

/-- The first number from `n` on that is not in use; as many steps as numbers in use are enough. -/
def search (used : List Int) : Nat → Nat → Nat
  | 0, n => n
  | steps + 1, n => if (n : Int) ∈ used then search used steps (n + 1) else n

/-- The number of the next node: the one it has, or the least that is free. -/
def assign (pool : IdPool) : Option Int → Except DocumentFault (Int × IdPool)
  | some id =>
    if id ∈ pool.used then .error (.duplicateId id)
    else .ok (id, { pool with used := id :: pool.used })
  | none =>
    let n := search pool.used pool.used.length pool.next
    .ok (n, ⟨n :: pool.used, n⟩)

end IdPool

namespace Document

/-- The fields of an object. -/
abbrev Fields := List (String × Json)

/-- A field that is missing or null counts as absent. -/
def present? (fields : Fields) (key : String) : Option Json :=
  match Table.get? fields key with
  | some .null => none
  | other => other

/-- The kind of a node object. A kind that is not known is an error, or stands as unknown. -/
def kindOf (allowUnknown : Bool) (fields : Fields) : Except DocumentFault Kind :=
  match Table.get? fields "kind" with
  | some (.str name) =>
    match Kind.ofName? name with
    | some kind => .ok kind
    | none => if allowUnknown then .ok .unknown else .error (.unknownKind name)
  | _ => .error .noKind

/-- An offset of a node object, if it is there. -/
def offsetOf (fields : Fields) (key : String) : Except DocumentFault (Option Int) :=
  match present? fields key with
  | none => .ok none
  | some (.int n) => if n < 0 then .error (.badOffset key) else .ok (some n)
  | some _ => .error (.badOffset key)

/-- The start of a node object, which must be there. -/
def startOf (fields : Fields) : Except DocumentFault Int :=
  match offsetOf fields "pos" with
  | .ok (some n) => .ok n
  | .ok none => .error .noStart
  | .error e => .error e

/-- The number of a node object, if it has one. -/
def idOf (fields : Fields) : Except DocumentFault (Option Int) :=
  match present? fields "id" with
  | none => .ok none
  | some (.int n) => .ok (some n)
  | some _ => .error .badId

/-- A text of a node object, if it is there. -/
def textOf (fields : Fields) (key : String) : Except DocumentFault (Option String) :=
  match present? fields key with
  | none => .ok none
  | some (.str s) => .ok (some s)
  | some _ => .error (.notText key)

/-- What decoding carries from node to node: the numbers in use and the types found so far. -/
structure Progress where
  ids : IdPool := ⟨[], 0⟩
  types : Table Int String := []
deriving DecidableEq

/-- Keep the type found for a node, if there is one. -/
def keepType (types : Table Int String) (id : Int) : Option String → Table Int String
  | some descriptor => types.set id descriptor
  | none => types

/-- Decode a node object without its children. -/
def decodeLabel (allowUnknown : Bool) (fields : Fields) (progress : Progress) :
    Except DocumentFault (Node × Progress) := do
  let kind ← kindOf allowUnknown fields
  let start ← startOf fields
  let stop ← offsetOf fields "end"
  let written ← idOf fields
  let (id, ids) ← progress.ids.assign written
  let declared ← textOf fields "type"
  let name ← textOf fields "name"
  let resolved ← textOf fields "resolvedType"
  return (⟨kind, start, stop, declared, name, id⟩, ⟨ids, keepType progress.types id resolved⟩)

mutual

/-- Decode a node object and what hangs below it. -/
def decodeNode (allowUnknown : Bool) :
    Json → NodePath → Progress → Except DocumentError (Tree × Progress)
  | .obj fields, path, progress =>
    match decodeLabel allowUnknown fields progress with
    | .error fault => .error ⟨fault, some path⟩
    | .ok (node, progress) =>
      match decodeBelow allowUnknown fields path progress with
      | .error e => .error e
      | .ok (children, progress) => .ok (.node node children, progress)
  | _, path, _ => .error ⟨.nodeNotObject, some path⟩

/-- Decode the children of a node object, looking for them among its fields. An object without
them is a leaf. -/
def decodeBelow (allowUnknown : Bool) :
    Fields → NodePath → Progress → Except DocumentError (List Tree × Progress)
  | [], _, progress => .ok ([], progress)
  | (key, value) :: rest, path, progress =>
    if key = "children" then
      match value with
      | .arr items => decodeItems allowUnknown items path 0 progress
      | _ => .error ⟨.childrenNotList, some path⟩
    else decodeBelow allowUnknown rest path progress

/-- Decode child objects from the given place in the list of children on. -/
def decodeItems (allowUnknown : Bool) :
    List Json → NodePath → Nat → Progress → Except DocumentError (List Tree × Progress)
  | [], _, _, progress => .ok ([], progress)
  | item :: rest, path, index, progress =>
    match decodeNode allowUnknown item (path ++ [index]) progress with
    | .error e => .error e
    | .ok (tree, progress) =>
      match decodeItems allowUnknown rest path (index + 1) progress with
      | .error e => .error e
      | .ok (trees, progress) => .ok (tree :: trees, progress)

end

end Document

/-- A decoded document: name and text of the source, its tree, and the types found for nodes. -/
structure LoadedTree where
  fileName : String
  text : String
  tree : Tree
  types : Table Int String

namespace LoadedTree

/-- The type of a node as the document tells it: what the front end found, else the annotation. -/
def resolver (loaded : LoadedTree) : Types.Resolver :=
  .recorded loaded.types.get? (some .declared)

end LoadedTree

/-- Decode a tree document. -/
def Document.decode (allowUnknown : Bool) : Json → Except DocumentError LoadedTree
  | .obj fields =>
    match Table.get? fields "fileName", Table.get? fields "text", Table.get? fields "root" with
    | some (.str fileName), some (.str text), some root =>
      match Document.decodeNode allowUnknown root [] {} with
      | .error e => .error e
      | .ok (tree, progress) =>
        if tree.label.kind = .sourceFile then .ok ⟨fileName, text, tree, progress.types⟩
        else .error ⟨.rootKind tree.label.kind, some []⟩
    | some (.str _), some (.str _), none => .error ⟨.noRoot, none⟩
    | some (.str _), _, _ => .error ⟨.text, none⟩
    | _, _, _ => .error ⟨.fileName, none⟩
  | _ => .error ⟨.notObject, none⟩

end TreeLint
