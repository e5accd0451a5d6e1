import Mathlib.Data.List.Lex
import Mathlib.Data.List.Forall2
import Mathlib.Data.List.Nodup
import TreeLint.Tree.Document
import TreeLint.Tree.Walk

/-!
# Occurrences of nodes

A path names one occurrence of a node below a root: which link to take at each step. A shared node
occurs on several paths, and a node on a cycle on infinitely many. Pre-order of occurrences is the
lexicographic order of their paths, in which a path stands before its extensions and these before
everything further right.

A walk takes up occurrences in this order. Between two steps every occurrence is either behind the
stack, and its node has been met, or it lies at or below an entry of the stack.
-/

namespace TreeLint.Graph

variable {g : Graph}

/-- The node that a path leads to. A path gets lost at a link that is missing or leads to no
node. -/
def follow? (g : Graph) : Fin g.size → NodePath → Option (Fin g.size)
  | i, [] => some i
  | i, place :: rest =>
    match (g.links i)[place]? with
    | some (.node j) => g.follow? j rest
    | _ => none

/-- A path is followed through its parts one after the other. -/
theorem follow?_append (i : Fin g.size) (path rest : NodePath) :
    g.follow? i (path ++ rest) = (g.follow? i path).bind (g.follow? · rest) := by
  induction path generalizing i with
  | nil => rfl
  | cons place path ih =>
    simp only [List.cons_append, follow?]
    split
    · exact ih _
    · rfl

/-- Where all links lead to nodes, the first step of a path chooses one of these nodes. -/
theorem follow?_cons_of_links {i : Fin g.size} {below : List (Fin g.size)}
    (h : g.links i = below.map .node) (place : Nat) (rest : NodePath) :
    g.follow? i (place :: rest) = below[place]?.bind (g.follow? · rest) := by
  rw [follow?, h, List.getElem?_map]
  cases below[place]? <;> rfl

/-- A path comes before its proper extensions. -/
theorem lt_append_cons (path : NodePath) (place : Nat) (rest : NodePath) :
    path < path ++ place :: rest := by
  have h : path ++ [] < path ++ place :: rest := List.append_left_lt (List.nil_lt_cons place rest)
  rwa [List.append_nil] at h

/-- No extension of a path comes before it. -/
theorem not_append_lt (path rest : NodePath) : ¬ path ++ rest < path :=
  List.not_lt.mpr (List.prefix_append path rest).le

/-- Whether a path comes before all entries of a stack. -/
def Behind (paths : List NodePath) (path : NodePath) : Prop :=
  ∀ entry ∈ paths, path < entry

/-- The paths of the children of an occurrence with the given number of links. -/
def childPaths (path : NodePath) (count : Nat) : List NodePath :=
  (List.range count).map fun place => path ++ [place]

/-- What holds between the steps of a walk whose stack entries stand at the given paths: the entries
are in order, each with all that lies below it before the next; every occurrence is behind the stack
or at or below an entry; and exactly the nodes that occur behind the stack have been met. -/
structure Frontier (g : Graph) (root : Fin g.size) (fresh stack : List (Fin g.size))
    (paths : List NodePath) : Prop where
  nodup : fresh.Nodup
  leads : List.Forall₂ (fun path i => g.follow? root path = some i) paths stack
  sorted : paths.Pairwise fun path other => ∀ rest, path ++ rest < other
  cover : ∀ path i, g.follow? root path = some i →
    Behind paths path ∨ ∃ entry ∈ paths, entry <+: path
  mem_fresh_iff : ∀ i, i ∈ fresh ↔ ¬ ∃ path, g.follow? root path = some i ∧ Behind paths path

/-- At the start of a walk nothing has been met and everything lies below the root. -/
theorem frontier_start (root : Fin g.size) :
    g.Frontier root (List.finRange g.size) [root] [[]] where
  nodup := List.nodup_finRange _
  leads := .cons rfl .nil
  sorted := List.pairwise_singleton _ _
  cover path i _ := .inr ⟨[], List.mem_singleton_self _, List.nil_prefix⟩
  mem_fresh_iff i := by
    refine ⟨fun _ h => ?_, fun _ => List.mem_finRange i⟩
    obtain ⟨path, _, hbehind⟩ := h
    exact not_append_lt [] path (hbehind [] (List.mem_singleton_self _))

/-- A stack that is not empty has a next entry. -/
theorem Frontier.exists_head {root i : Fin g.size} {fresh rest : List (Fin g.size)}
    {paths : List NodePath} (h : g.Frontier root fresh (i :: rest) paths) :
    ∃ path others, paths = path :: others := by
  cases h.leads with
  | cons _ _ => exact ⟨_, _, rfl⟩

section Step

variable {root i : Fin g.size} {fresh rest : List (Fin g.size)} {path : NodePath}
  {paths : List NodePath}

/-- The next entry of a stack leads to its node. -/
theorem Frontier.follow?_head (h : g.Frontier root fresh (i :: rest) (path :: paths)) :
    g.follow? root path = some i := by
  cases h.leads with
  | cons hhead _ => exact hhead

/-- The paths behind a stack are those before its next entry. -/
theorem Frontier.behind_iff (h : g.Frontier root fresh (i :: rest) (path :: paths))
    {other : NodePath} : Behind (path :: paths) other ↔ other < path := by
  refine ⟨fun hbehind => hbehind path List.mem_cons_self, fun hlt entry hentry => ?_⟩
  rcases List.mem_cons.mp hentry with rfl | hentry
  · exact hlt
  · have hnext := (List.pairwise_cons.mp h.sorted).1 entry hentry []
    rw [List.append_nil] at hnext
    exact hlt.trans hnext

/-- The next node has been met exactly when it occurs before the next entry. -/
theorem Frontier.not_mem_fresh_iff (h : g.Frontier root fresh (i :: rest) (path :: paths)) :
    i ∉ fresh ↔ ∃ earlier, g.follow? root earlier = some i ∧ earlier < path := by
  simp only [h.mem_fresh_iff, not_not, h.behind_iff]

/-- An occurrence below the next entry lies at or below one of its children. -/
theorem Frontier.child_mem (h : g.Frontier root fresh (i :: rest) (path :: paths))
    {below : List (Fin g.size)} (hlinks : g.links i = below.map .node) {place : Nat}
    {extra : NodePath} {j : Fin g.size}
    (hother : g.follow? root (path ++ place :: extra) = some j) :
    path ++ [place] ∈ childPaths path below.length := by
  rw [follow?_append, h.follow?_head, Option.bind_some, follow?_cons_of_links hlinks] at hother
  obtain ⟨k, hk, _⟩ := Option.bind_eq_some_iff.mp hother
  have hplace := (List.getElem?_eq_some_iff.mp hk).1
  exact List.mem_map.mpr ⟨place, List.mem_range.mpr hplace, rfl⟩

/-- The occurrences behind the stack after a step are those behind it before, and the one just
taken up. -/
theorem Frontier.behind_step_iff (h : g.Frontier root fresh (i :: rest) (path :: paths))
    {below : List (Fin g.size)} (hlinks : g.links i = below.map .node) {other : NodePath}
    {j : Fin g.size} (hother : g.follow? root other = some j) :
    Behind (childPaths path below.length ++ paths) other ↔
      other = path ∨ Behind (path :: paths) other := by
  obtain ⟨hnext, _⟩ := List.pairwise_cons.mp h.sorted
  constructor
  · intro hbehind
    rcases h.cover other j hother with hold | ⟨entry, hentry, extra, rfl⟩
    · exact .inr hold
    · rcases List.mem_cons.mp hentry with rfl | hentry
      · cases extra with
        | nil => exact .inl (List.append_nil _)
        | cons place extra =>
          -- A proper extension lies below a child, which is now an entry of the stack.
          have hchild := h.child_mem hlinks hother
          have hlt := hbehind _ (List.mem_append_left _ hchild)
          rw [List.append_cons] at hlt
          exact absurd hlt (not_append_lt _ _)
      · exact absurd (hbehind entry (List.mem_append_right _ hentry)) (not_append_lt _ _)
  · intro hother entry hentry
    have hpath : path < entry := by
      rcases List.mem_append.mp hentry with hentry | hentry
      · obtain ⟨place, _, rfl⟩ := List.mem_map.mp hentry
        exact lt_append_cons path place []
      · have hlt := hnext entry hentry []
        rwa [List.append_nil] at hlt
    rcases hother with rfl | hold
    · exact hpath
    · exact (hold path List.mem_cons_self).trans hpath

/-- The children of an occurrence stand at its extensions by one step. -/
theorem forall₂_childPaths (hpath : g.follow? root path = some i) {below : List (Fin g.size)}
    (hlinks : g.links i = below.map .node) :
    List.Forall₂ (fun path i => g.follow? root path = some i) (childPaths path below.length)
      below := by
  rw [childPaths, List.forall₂_map_left_iff, List.forall₂_iff_zip]
  refine ⟨List.length_range, fun {place j} hmem => ?_⟩
  obtain ⟨index, hindex⟩ := List.mem_iff_getElem?.mp hmem
  rw [List.getElem?_zip_eq_some] at hindex
  obtain ⟨hplace, hj⟩ := hindex
  obtain ⟨hlt, hplace⟩ := List.getElem?_eq_some_iff.mp hplace
  rw [List.getElem_range] at hplace
  subst hplace
  rw [follow?_append, hpath, Option.bind_some, follow?_cons_of_links hlinks, hj, Option.bind_some]
  rfl

/-- Taking up a new node whose links lead to nodes, and putting these on the stack, keeps the
invariant. -/
theorem Frontier.step (h : g.Frontier root fresh (i :: rest) (path :: paths))
    {below : List (Fin g.size)} (hlinks : g.links i = below.map .node) :
    g.Frontier root (fresh.erase i) (below ++ rest) (childPaths path below.length ++ paths) := by
  obtain ⟨hnext, hsorted⟩ := List.pairwise_cons.mp h.sorted
  refine ⟨h.nodup.erase i, ?_, ?_, fun other j hother => ?_, fun j => ?_⟩
  · cases h.leads with
    | cons hpath hrest => exact List.rel_append (forall₂_childPaths hpath hlinks) hrest
  · refine List.pairwise_append.mpr ⟨?_, hsorted, fun entry hentry other hother extra => ?_⟩
    · refine List.pairwise_map.mpr (List.pairwise_lt_range.imp fun hlt extra => ?_)
      rw [List.append_assoc]
      exact List.append_left_lt (List.cons_lt_cons_iff.mpr (.inl hlt))
    · obtain ⟨place, _, rfl⟩ := List.mem_map.mp hentry
      rw [List.append_assoc]
      exact hnext other hother _
  · rw [h.behind_step_iff hlinks hother]
    rcases h.cover other j hother with hold | ⟨entry, hentry, extra, rfl⟩
    · exact .inl (.inr hold)
    · rcases List.mem_cons.mp hentry with rfl | hentry
      · cases extra with
        | nil => exact .inl (.inl (List.append_nil _))
        | cons place extra =>
          rw [List.append_cons]
          exact .inr ⟨_, List.mem_append_left _ (h.child_mem hlinks hother),
            List.prefix_append _ _⟩
      · exact .inr ⟨entry, List.mem_append_right _ hentry, List.prefix_append _ _⟩
  · rw [h.nodup.mem_erase_iff, h.mem_fresh_iff, ← not_or, not_iff_not]
    constructor
    · intro hmet
      rcases hmet with rfl | ⟨other, hother, hold⟩
      · exact ⟨path, h.follow?_head, (h.behind_step_iff hlinks h.follow?_head).mpr (.inl rfl)⟩
      · exact ⟨other, hother, (h.behind_step_iff hlinks hother).mpr (.inr hold)⟩
    · intro hmet
      obtain ⟨other, hother, hbehind⟩ := hmet
      rcases (h.behind_step_iff hlinks hother).mp hbehind with rfl | hold
      · exact .inl (Option.some.inj (hother.symm.trans h.follow?_head))
      · exact .inr ⟨other, hother, hold⟩

end Step

end TreeLint.Graph
