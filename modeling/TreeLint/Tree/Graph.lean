import TreeLint.Tree.Node

/-!
# Node graphs and trees

What a front end hands over is a finite graph: numbered nodes, each with a list of links to other
nodes or to values that are no nodes. Nothing forces it to be a tree: nodes can be shared, and
links can form cycles. A node with its place in the graph is a vertex; from there everything below
the node can be looked at. A proper tree is also given by an inductive type, and laid out as a graph
by numbering its nodes in pre-order.
-/

namespace TreeLint

/-- A link to one of `n` nodes, or to something else. -/
inductive Link (n : Nat) where
  | node (index : Fin n)
  | stray (value : Stray)
deriving DecidableEq

/-- A node of a graph with its links, in source order. -/
structure Cell (n : Nat) where
  node : Node
  links : List (Link n)

/-- A finite graph of nodes. Two nodes are the same only if they have the same number. -/
structure Graph where
  size : Nat
  cells : Vector (Cell size) size

namespace Graph

/-- The node with a given number. -/
def node (g : Graph) (i : Fin g.size) : Node :=
  g.cells[i].node

/-- The links of the node with a given number. -/
def links (g : Graph) (i : Fin g.size) : List (Link g.size) :=
  g.cells[i].links

end Graph

/-- A node at its place in a graph, as it is given to whoever inspects it: its links, and all that
can be reached by them, are found in the graph. -/
structure Vertex where
  graph : Graph
  index : Fin graph.size

/-- The node that stands at a vertex. -/
def Vertex.node (vertex : Vertex) : Node :=
  vertex.graph.node vertex.index

/-- The vertex of the node with a given number. -/
def Graph.vertex (g : Graph) (i : Fin g.size) : Vertex :=
  ⟨g, i⟩

/-- A tree of nodes. -/
inductive Tree where
  | node (label : Node) (children : List Tree)

namespace Tree

/-- The node at the root. -/
def label : Tree → Node
  | .node label _ => label

/-- The subtrees below the root, in source order. -/
def children : Tree → List Tree
  | .node _ children => children

mutual

/-- The number of nodes of a tree. -/
def size : Tree → Nat
  | .node _ children => sizeList children + 1

/-- The number of nodes of a list of trees. -/
def sizeList : List Tree → Nat
  | [] => 0
  | tree :: rest => tree.size + sizeList rest

end

mutual

/-- The subtrees of a tree in pre-order: itself, then those of its children from left to right. -/
def preorder : Tree → List Tree
  | .node label children => .node label children :: preorderList children

/-- The subtrees of a list of trees in pre-order. -/
def preorderList : List Tree → List Tree
  | [] => []
  | tree :: rest => tree.preorder ++ preorderList rest

end

/-- The numbers of the roots of trees that are laid out one after the other. -/
def rootNumbers : Nat → List Tree → List Nat
  | _, [] => []
  | next, tree :: rest => next :: rootNumbers (next + tree.size) rest

/-- The links from a node to nodes given by their numbers. -/
def linksTo (n : Nat) (numbers : List Nat) : List (Link n) :=
  numbers.map fun i => if h : i < n then .node ⟨i, h⟩ else .stray .nothing

mutual

/-- The cells of a tree whose root has the number `first`, in a graph of `n` nodes. -/
def cellsFrom (n first : Nat) : Tree → List (Cell n)
  | .node label children =>
    ⟨label, linksTo n (rootNumbers (first + 1) children)⟩ :: cellsFromList n (first + 1) children

/-- The cells of trees laid out one after the other. -/
def cellsFromList (n first : Nat) : List Tree → List (Cell n)
  | [] => []
  | tree :: rest => cellsFrom n first tree ++ cellsFromList n (first + tree.size) rest

end

mutual

/-- Laying out a tree takes one cell for each of its nodes. -/
theorem length_cellsFrom (n first : Nat) (tree : Tree) :
    (cellsFrom n first tree).length = tree.size := by
  cases tree with
  | node label children => simp [cellsFrom, size, length_cellsFromList n (first + 1) children]

/-- Laying out a list of trees takes one cell for each of their nodes. -/
theorem length_cellsFromList (n first : Nat) (trees : List Tree) :
    (cellsFromList n first trees).length = sizeList trees := by
  cases trees with
  | nil => simp [cellsFromList, sizeList]
  | cons tree rest =>
    simp [cellsFromList, sizeList, length_cellsFrom n first tree,
      length_cellsFromList n (first + tree.size) rest]

end

/-- A tree as a graph, its nodes numbered in pre-order from zero. -/
def toGraph (tree : Tree) : Graph where
  size := tree.size
  cells := ⟨(cellsFrom tree.size 0 tree).toArray, by simp [length_cellsFrom]⟩

/-- A tree has at least one node. -/
theorem size_pos (tree : Tree) : 0 < tree.size := by
  cases tree with
  | node label children => simp [size]

/-- The link to the root of a tree that is laid out as a graph. -/
def rootLink (tree : Tree) : Link tree.toGraph.size :=
  .node ⟨0, size_pos tree⟩

end Tree

end TreeLint
