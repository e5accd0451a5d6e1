import TreeLint.Proofs.Tree.Walk

/-!
# The calls of a visitor

A walk hands nodes to a visitor while it is still looking at the graph. Which nodes the visitor is
called with, and whose error ends the walk, is said here of the list of nodes alone. The visitor is
called with the nodes of the list in order, up to the first one that it refuses, and its refusal
ends the walk also where a defect of the graph lies further on, or among the links of the refused
node itself. If it refuses none, it has seen the whole list, and the walk ends as the list does.

The calls are made visible by a visitor that notes every item before it hands it on.
-/

namespace TreeLint

variable {ι σ ε : Type} {visit : σ → ι → σ × Option ε}

/-- A visitor that also keeps the items it is called with, in order, whether it refuses them or
not. -/
def noting (visit : σ → ι → σ × Option ε) (state : σ × List ι) (item : ι) :
    (σ × List ι) × Option ε :=
  (((visit state.1 item).1, state.2 ++ [item]), (visit state.1 item).2)

/-- A visitor takes items one after the other, from one state to another, and refuses none. -/
inductive Takes (visit : σ → ι → σ × Option ε) : σ → List ι → σ → Prop where
  | nil (state : σ) : Takes visit state [] state
  | cons {state middle final : σ} {item : ι} {rest : List ι}
      (hitem : visit state item = (middle, none)) (hrest : Takes visit middle rest final) :
      Takes visit state (item :: rest) final

/-- The first of some items that a visitor refuses is the one with the given number, counted from
one. It leaves a state and a reason. -/
inductive Refuses (visit : σ → ι → σ × Option ε) : σ → List ι → Nat → σ → ε → Prop where
  | head {state final : σ} {item : ι} {rest : List ι} {reason : ε}
      (hitem : visit state item = (final, some reason)) :
      Refuses visit state (item :: rest) 1 final reason
  | tail {state middle final : σ} {item : ι} {rest : List ι} {number : Nat} {reason : ε}
      (hitem : visit state item = (middle, none))
      (hrest : Refuses visit middle rest number final reason) :
      Refuses visit state (item :: rest) (number + 1) final reason

/-- A visitor takes all items or refuses a first one. -/
theorem takes_or_refuses (visit : σ → ι → σ × Option ε) (state : σ) (items : List ι) :
    (∃ final, Takes visit state items final) ∨
      ∃ number final reason, Refuses visit state items number final reason := by
  induction items generalizing state with
  | nil => exact .inl ⟨state, .nil state⟩
  | cons item rest ih =>
    rcases hitem : visit state item with ⟨middle, _ | reason⟩
    · rcases ih middle with ⟨final, htakes⟩ | ⟨number, final, reason, hrefuses⟩
      · exact .inl ⟨final, .cons hitem htakes⟩
      · exact .inr ⟨number + 1, final, reason, .tail hitem hrefuses⟩
    · exact .inr ⟨1, middle, reason, .head hitem⟩

/-- Keeping the items changes neither the state nor the refusal. -/
theorem visitAll_eq_noting (visit : σ → ι → σ × Option ε) (state : σ) (calls items : List ι) :
    visitAll visit state items =
      ((visitAll (noting visit) (state, calls) items).1.1,
        (visitAll (noting visit) (state, calls) items).2) := by
  induction items generalizing state calls with
  | nil => rfl
  | cons item rest ih =>
    rcases hitem : visit state item with ⟨middle, _ | reason⟩
    · simp only [visitAll, noting, hitem]
      exact ih middle _
    · simp only [visitAll, noting, hitem]

/-- A visitor that takes all items is called with all of them. -/
theorem Takes.visitAll_noting {state final : σ} {items : List ι}
    (h : Takes visit state items final) (calls : List ι) :
    visitAll (noting visit) (state, calls) items = ((final, calls ++ items), none) := by
  induction h generalizing calls with
  | nil state => rw [visitAll, List.append_nil]
  | cons hitem _ ih =>
    rw [visitAll, noting, hitem]
    change visitAll (noting visit) (_, _) _ = _
    rw [ih, List.append_assoc, List.singleton_append]

/-- A visitor that refuses an item is called with the items up to this one. -/
theorem Refuses.visitAll_noting {state final : σ} {items : List ι} {number : Nat} {reason : ε}
    (h : Refuses visit state items number final reason) (calls : List ι) :
    visitAll (noting visit) (state, calls) items =
      ((final, calls ++ items.take number), some reason) := by
  induction h generalizing calls with
  | head hitem =>
    rw [visitAll, noting, hitem]
    rfl
  | tail hitem _ ih =>
    rw [visitAll, noting, hitem]
    change visitAll (noting visit) (_, _) _ = _
    rw [ih, List.append_assoc, List.singleton_append, List.take_succ_cons]

namespace Graph

/-- A walk is the visitor's way through the list of nodes. If the first node that the visitor
refuses is the one with some number, the walk ends with this refusal and the visitor has been called
with the nodes up to that number, whatever the defect of the graph. If it refuses none, it has been
called with all nodes in order, and the walk ends with the defect, or with the number of nodes if
there is no defect. One of the two is the case, and keeping the calls changes nothing. -/
theorem walk_is_fold_over_trace {σ ε : Type} (g : Graph) (root : Link g.size)
    (visit : σ → Fin g.size → σ × Option ε) (state : σ) :
    (∀ number final reason, Refuses visit state (g.trace root).1 number final reason →
      g.walk root (noting visit) (state, []) =
        ⟨(final, (g.trace root).1.take number), .error (.visitor reason)⟩) ∧
    (∀ final, Takes visit state (g.trace root).1 final →
      g.walk root (noting visit) (state, []) =
        ⟨(final, (g.trace root).1),
          match (g.trace root).2 with
          | some defect => .error (.malformed defect)
          | none => .ok (g.trace root).1.length⟩) ∧
    ((∃ final, Takes visit state (g.trace root).1 final) ∨
      ∃ number final reason, Refuses visit state (g.trace root).1 number final reason) ∧
    g.walk root visit state =
      ⟨(g.walk root (noting visit) (state, [])).state.1,
        (g.walk root (noting visit) (state, [])).outcome⟩ := by
  refine ⟨?_, ?_, takes_or_refuses visit state _, ?_⟩
  · intro number final reason hrefuses
    rw [walk_eq_visitAll, hrefuses.visitAll_noting []]
    rfl
  · intro final htakes
    rw [walk_eq_visitAll, htakes.visitAll_noting []]
    cases (g.trace root).2 <;> rfl
  · rw [walk_eq_visitAll, walk_eq_visitAll, visitAll_eq_noting visit state []]
    rcases visitAll (noting visit) (state, []) (g.trace root).1 with ⟨⟨final, calls⟩, _ | reason⟩
    · cases (g.trace root).2 <;> rfl
    · rfl

/-- A file with one block, which has a link that leads to no node. -/
def strayLink : Graph where
  size := 2
  cells := #v[⟨{ kind := .sourceFile, start := 0 }, [.node (Fin.last 1)]⟩,
    ⟨{ kind := .block, start := 4 }, [.stray .nothing]⟩]

/-- The block is met before its link is looked at. -/
theorem trace_strayLink :
    strayLink.trace (.node (0 : Fin 2)) =
      ([(0 : Fin 2), (1 : Fin 2)],
        some (.strayChild { kind := .block, start := 4 } .nothing)) := by
  have hblock : strayLink.traceFrom [(1 : Fin 2)] [(1 : Fin 2)] =
      ([(1 : Fin 2)], some (.strayChild { kind := .block, start := 4 } .nothing)) := by
    rw [traceFrom.eq_def]
    rfl
  change strayLink.traceFrom [(0 : Fin 2), (1 : Fin 2)] [(0 : Fin 2)] = _
  rw [traceFrom.eq_def]
  change ((0 : Fin 2) :: (strayLink.traceFrom [(1 : Fin 2)] [(1 : Fin 2)]).1,
    (strayLink.traceFrom [(1 : Fin 2)] [(1 : Fin 2)]).2) = _
  rw [hblock]

/-- A visitor that counts its calls and refuses the second. -/
def refuseSecond (count : Nat) (_ : Fin strayLink.size) : Nat × Option String :=
  (count + 1, if count = 1 then some "no" else none)

/-- A visitor that refuses the block ends the walk, although the link of the block is a defect. -/
theorem walk_refused_strayLink :
    Refuses refuseSecond 0 (strayLink.trace (.node (0 : Fin 2))).1 2 2 "no" ∧
    strayLink.walk (.node (0 : Fin 2)) (noting refuseSecond) (0, []) =
      ⟨(2, [(0 : Fin 2), (1 : Fin 2)]), .error (.visitor "no")⟩ := by
  have hrefuses : Refuses refuseSecond 0 (strayLink.trace (.node (0 : Fin 2))).1 2 2 "no" := by
    rw [trace_strayLink]
    exact .tail rfl (.head rfl)
  have hwalk :=
    (walk_is_fold_over_trace strayLink (.node (0 : Fin 2)) refuseSecond 0).1 _ _ _ hrefuses
  rw [trace_strayLink] at hwalk
  exact ⟨hrefuses, hwalk⟩

end Graph

end TreeLint
