import TreeLint.Tree.Graph

/-!
# Walking a node graph

A walk visits nodes depth first, each before what hangs below it and links from left to right. The
nodes still to visit wait on a stack. A node that comes up a second time, or a link that leads to
no node, ends the walk. The links of a node are looked at only after the node has been visited,
and a repeated node is noticed only when its turn comes; which of several defects is reported
depends on exactly this.
-/

namespace TreeLint

/-- Why a graph is no tree. -/
inductive Malformed where
  | noRoot
  | strayRoot (value : Stray)
  | repeated (node : Node)
  | strayChild (parent : Node) (child : Stray)
deriving DecidableEq

/-- The wording of a malformed graph. -/
def Malformed.message : Malformed → String
  | .noRoot => "syntax tree has no root node"
  | .strayRoot value => s!"root is not a syntax node: {value.display}"
  | .repeated node => s!"node {node.display} is reachable more than once (cycle or shared child)"
  | .strayChild parent child => s!"child of {parent.display} is not a syntax node: {child.display}"

/-- The nodes that a list of links leads to, or the first value that is no node. -/
def Link.nodes {n : Nat} : List (Link n) → Except Stray (List (Fin n))
  | [] => .ok []
  | .node i :: rest =>
    match Link.nodes rest with
    | .ok others => .ok (i :: others)
    | .error value => .error value
  | .stray value :: _ => .error value

/-- Links lead to nodes alone exactly when they are the links to those nodes. -/
theorem Link.nodes_eq_ok_iff {n : Nat} {links : List (Link n)} {below : List (Fin n)} :
    Link.nodes links = .ok below ↔ links = below.map .node := by
  induction links generalizing below with
  | nil => cases below <;> simp [Link.nodes]
  | cons link rest ih =>
    cases link with
    | stray value => cases below <;> simp [Link.nodes]
    | node i =>
      cases below with
      | nil => cases h : Link.nodes rest <;> simp [Link.nodes, h]
      | cons j below =>
        have ih := @ih below
        cases h : Link.nodes rest with
        | error value => simpa [Link.nodes, h] using fun _ => by simpa [h] using ih
        | ok others =>
          rw [h] at ih
          simp only [Except.ok.injEq] at ih
          simp [Link.nodes, h, ih]

/-- Links lead to a value that is no node exactly when some of them lead to nodes and the next one
leads to that value. -/
theorem Link.nodes_eq_error_iff {n : Nat} {links : List (Link n)} {value : Stray} :
    Link.nodes links = .error value ↔
      ∃ (before : List (Fin n)) (after : List (Link n)),
        links = before.map .node ++ .stray value :: after := by
  induction links with
  | nil => simp [Link.nodes]
  | cons link rest ih =>
    cases link with
    | stray other =>
      simp only [Link.nodes, Except.error.injEq]
      constructor
      · intro h
        exact ⟨[], rest, by rw [h, List.map_nil, List.nil_append]⟩
      · intro h
        obtain ⟨before, after, h⟩ := h
        cases before <;> cases h
        rfl
    | node i =>
      have hstep : Link.nodes (.node i :: rest) = .error value ↔
          Link.nodes rest = .error value := by
        cases h : Link.nodes rest <;> simp [Link.nodes, h]
      rw [hstep, ih]
      constructor
      · intro h
        obtain ⟨before, after, h⟩ := h
        exact ⟨i :: before, after, by rw [h, List.map_cons, List.cons_append]⟩
      · intro h
        obtain ⟨before, after, h⟩ := h
        cases before with
        | nil => cases h
        | cons j before =>
          cases h
          exact ⟨before, after, rfl⟩

/-- Visiting a node leaves fewer nodes unvisited. -/
theorem length_erase_lt {n : Nat} {fresh : List (Fin n)} {i : Fin n} (h : i ∈ fresh) :
    (fresh.erase i).length < fresh.length := by
  have := List.length_pos_of_mem h
  rw [List.length_erase_of_mem h]
  omega

namespace Graph

/-- The node at which a walk from a link begins. -/
def start {n : Nat} : Link n → Except Malformed (Fin n)
  | .node i => .ok i
  | .stray .nothing => .error .noRoot
  | .stray value => .error (.strayRoot value)

/-- The nodes met from a stack on, in order, and the defect that ended the walk. Only nodes of the
second list are still unvisited. -/
def traceFrom (g : Graph) (fresh stack : List (Fin g.size)) :
    List (Fin g.size) × Option Malformed :=
  match stack with
  | [] => ([], none)
  | i :: rest =>
    if h : i ∈ fresh then
      match Link.nodes (g.links i) with
      | .error value => ([i], some (.strayChild (g.node i) value))
      | .ok below =>
        have := length_erase_lt h
        let (others, defect) := traceFrom g (fresh.erase i) (below ++ rest)
        (i :: others, defect)
    else ([], some (.repeated (g.node i)))
termination_by fresh.length

/-- The nodes met from a root on, in order, and the defect that ended the walk. -/
def trace (g : Graph) (root : Link g.size) : List (Fin g.size) × Option Malformed :=
  match start root with
  | .ok i => g.traceFrom (List.finRange g.size) [i]
  | .error defect => ([], some defect)

/-- Why a walk stopped before its end: the graph is malformed, or the visitor refused. -/
inductive Stop (ε : Type) where
  | malformed (defect : Malformed)
  | visitor (reason : ε)
deriving DecidableEq

/-- How a walk ended: the state of the visitor, and the number of nodes or what stopped it. -/
structure Walked (σ ε : Type) where
  state : σ
  outcome : Except (Stop ε) Nat

/-- Walk on from a stack with a visitor that changes a state and may refuse. -/
def walkFrom {σ ε : Type} (g : Graph) (visit : σ → Fin g.size → σ × Option ε)
    (fresh stack : List (Fin g.size)) (count : Nat) (state : σ) : Walked σ ε :=
  match stack with
  | [] => ⟨state, .ok count⟩
  | i :: rest =>
    if h : i ∈ fresh then
      match visit state i with
      | (state, some reason) => ⟨state, .error (.visitor reason)⟩
      | (state, none) =>
        match Link.nodes (g.links i) with
        | .error value => ⟨state, .error (.malformed (.strayChild (g.node i) value))⟩
        | .ok below =>
          have := length_erase_lt h
          walkFrom g visit (fresh.erase i) (below ++ rest) (count + 1) state
    else ⟨state, .error (.malformed (.repeated (g.node i)))⟩
termination_by fresh.length

/-- Walk a graph from a root, visiting every node before its links are followed. -/
def walk {σ ε : Type} (g : Graph) (root : Link g.size) (visit : σ → Fin g.size → σ × Option ε)
    (state : σ) : Walked σ ε :=
  match start root with
  | .ok i => g.walkFrom visit (List.finRange g.size) [i] 0 state
  | .error defect => ⟨state, .error (.malformed defect)⟩

end Graph

end TreeLint
