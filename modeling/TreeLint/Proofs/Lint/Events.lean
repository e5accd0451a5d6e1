import TreeLint.Proofs.Lint.Run
import TreeLint.Proofs.Tree.Occurrence

/-!
# What ends a run

A run can end early at three kinds of moments: when a node comes up that has come up before, when
a rule that is enforced has a finding outside the text, and when the links of a node are looked at
and one of them leads to no node. Moments are ordered by the occurrence of the node, in pre-order,
then as the run goes through them: the node comes up, the rules for its kind are evaluated in order,
and its links are looked at.

These events are told from the graph, the rules and the text alone, over all occurrences of nodes,
and of a graph with cycles there are infinitely many. A run over any graph fails exactly when there
is such an event, and with the first of them. Neither a check that fails nor a finding of a rule
that is not enforced is an event.
-/

namespace TreeLint

namespace RunContext

variable {ctx : RunContext}

/-- The error of a finding that is enforced and lies outside the text. -/
def misplaced? (ctx : RunContext) (vertex : Vertex) (rule : Rule) : Option Text.OffsetError :=
  match (rule.check vertex).eval ctx.resolve with
  | .error _ => none
  | .ok none => none
  | .ok (some _) =>
    if ctx.config.level rule.info = .allow then none
    else
      match ctx.lines.position vertex.node.start with
      | .error e => some e
      | .ok _ => none

/-- Evaluating a rule ends a run exactly by a misplaced finding, whatever was collected before. -/
theorem evaluate_snd (vertex : Vertex) (tally : Tally) (rule : Rule) :
    (ctx.evaluate vertex tally rule).2 = ctx.misplaced? vertex rule := by
  change (ctx.record rule vertex.node (ctx.evaluating vertex tally rule)
    ((rule.check vertex).eval ctx.resolve)).2 = _
  unfold misplaced?
  cases (rule.check vertex).eval ctx.resolve with
  | error fault => rfl
  | ok found =>
    cases found with
    | none => rfl
    | some finding =>
      simp only [record, severity?_eq]
      by_cases hallow : ctx.config.level rule.info = .allow
      · rw [if_pos hallow, if_pos hallow]
      · rw [if_neg hallow, if_neg hallow]
        simp only [place, Diagnostic.place]
        cases ctx.lines.position vertex.node.start <;> rfl

/-- Evaluating rules one after the other ends a run by the first misplaced finding. -/
theorem evaluateAll_snd (vertex : Vertex) (tally : Tally) (rules : List Rule) :
    (ctx.evaluateAll vertex tally rules).2 = rules.findSome? (ctx.misplaced? vertex) := by
  induction rules generalizing tally with
  | nil => rfl
  | cons rule rest ih =>
    have hrule := ctx.evaluate_snd vertex tally rule
    rw [evaluateAll, List.findSome?_cons, ← hrule]
    rcases ctx.evaluate vertex tally rule with ⟨next, _ | e⟩
    · exact ih next
    · rfl

/-- Visiting a node ends a run by the first misplaced finding of the rules for its kind. -/
theorem visit_snd (vertex : Vertex) (tally : Tally) :
    (ctx.visit tally vertex).2 =
      (ctx.registry.rulesFor vertex.node.kind).findSome? (ctx.misplaced? vertex) :=
  evaluateAll_snd vertex _ _

end RunContext

namespace Linter

/-- What a run does at an occurrence of a node, in order. -/
inductive Stage where
  | arrival
  | rule (place : Nat)
  | links
deriving DecidableEq

/-- The order of what a run does at an occurrence. -/
def Stage.Precedes : Stage → Stage → Prop
  | .arrival, .arrival => False
  | .arrival, _ => True
  | .rule _, .arrival => False
  | .rule place, .rule other => place < other
  | .rule _, .links => True
  | .links, _ => False

/-- Two different stages stand in some order. -/
theorem Stage.precedes_total {stage other : Stage} (h : stage ≠ other) :
    stage.Precedes other ∨ other.Precedes stage := by
  cases stage <;> cases other <;> simp_all [Precedes]

/-- A moment of a run: an occurrence of a node, and what is done there. -/
structure Moment where
  path : NodePath
  stage : Stage
deriving DecidableEq

/-- The order of moments: by occurrences in pre-order, then by what is done there. -/
def Moment.Precedes (moment other : Moment) : Prop :=
  moment.path < other.path ∨ moment.path = other.path ∧ moment.stage.Precedes other.stage

/-- Two different moments stand in some order. -/
theorem Moment.precedes_total {moment other : Moment} (h : moment ≠ other) :
    moment.Precedes other ∨ other.Precedes moment := by
  obtain ⟨path, stage⟩ := moment
  obtain ⟨otherPath, otherStage⟩ := other
  rcases lt_trichotomy path otherPath with hlt | rfl | hlt
  · exact .inl (.inl hlt)
  · have hstage : stage ≠ otherStage := fun heq => h (by rw [heq])
    exact (Stage.precedes_total hstage).imp (fun hlt => .inr ⟨rfl, hlt⟩) fun hlt => .inr ⟨rfl, hlt⟩
  · exact .inr (.inl hlt)

section Events

variable (linter : Linter) (source : Source) (resolve : Types.Resolver)
  (root : Fin source.graph.size)

/-- What is abnormal at a moment of a run from a root, with the error that it gives: the node came
up before, an enforced finding lies outside the text, or a link leads to no node. -/
inductive Event : Moment → RunError → Prop where
  | again {path earlier : NodePath} {i : Fin source.graph.size}
      (hpath : source.graph.follow? root path = some i)
      (hearlier : source.graph.follow? root earlier = some i) (hlt : earlier < path) :
      Event ⟨path, .arrival⟩ (.malformed (.repeated (source.graph.node i)))
  | misplaced {path : NodePath} {i : Fin source.graph.size} {place : Nat} {rule : Rule}
      {finding : Finding} (hpath : source.graph.follow? root path = some i)
      (hrule : (linter.registry.rulesFor (source.graph.node i).kind)[place]? = some rule)
      (hfinding : (rule.check (source.graph.vertex i)).eval resolve = .ok (some finding))
      (hlevel : linter.config.levelFor linter.registry source.text rule.info ≠ .allow)
      (houtside : (source.graph.node i).start < 0 ∨
        (source.text.length : Int) < (source.graph.node i).start) :
      Event ⟨path, .rule place⟩ (.position ⟨(source.graph.node i).start, source.text.length⟩)
  | stray {path : NodePath} {i : Fin source.graph.size} {before : List (Fin source.graph.size)}
      {value : Stray} {after : List (Link source.graph.size)}
      (hpath : source.graph.follow? root path = some i)
      (hlinks : source.graph.links i = before.map .node ++ .stray value :: after) :
      Event ⟨path, .links⟩ (.malformed (.strayChild (source.graph.node i) value))

/-- An error is that of the first event. -/
def FirstEvent (e : RunError) : Prop :=
  ∃ moment, Event linter source resolve root moment e ∧
    ∀ earlier other, Event linter source resolve root earlier other → ¬ earlier.Precedes moment

end Events

variable {linter : Linter} {source : Source} {resolve : Types.Resolver}
  {root : Fin source.graph.size}

/-- A rule has a misplaced finding on a node exactly when it is enforced and the node lies outside
the text. -/
theorem misplaced?_context_eq_some_iff {vertex : Vertex} {rule : Rule} {e : Text.OffsetError} :
    (linter.context source resolve).misplaced? vertex rule = some e ↔
      (∃ finding, (rule.check vertex).eval resolve = .ok (some finding)) ∧
      linter.config.levelFor linter.registry source.text rule.info ≠ .allow ∧
      (vertex.node.start < 0 ∨ (source.text.length : Int) < vertex.node.start) ∧
      e = ⟨vertex.node.start, source.text.length⟩ := by
  have hlevel : (linter.context source resolve).config.level =
      linter.config.levelFor linter.registry source.text := level_configFor linter source
  have hposition (misplaced : Text.OffsetError) :
      (linter.context source resolve).lines.position vertex.node.start = .error misplaced ↔
        (vertex.node.start < 0 ∨ (source.text.length : Int) < vertex.node.start) ∧
          misplaced = ⟨vertex.node.start, source.text.length⟩ := by
    rw [Text.LineMap.position_eq_error_iff]
    simp only [context, Text.LineMap.ofText, String.length_toList]
  rw [← hposition]
  unfold RunContext.misplaced?
  rw [hlevel]
  have hresolve : (linter.context source resolve).resolve = resolve := rfl
  rw [hresolve]
  cases (rule.check vertex).eval resolve with
  | error fault => simp
  | ok found =>
    cases found with
    | none => simp
    | some finding =>
      by_cases hallow : linter.config.levelFor linter.registry source.text rule.info = .allow
      · simp [hallow]
      · cases (linter.context source resolve).lines.position vertex.node.start <;> simp [hallow]

/-- At a moment there is at most one event. -/
theorem Event.unique {moment : Moment} {e other : RunError}
    (h : Event linter source resolve root moment e)
    (hother : Event linter source resolve root moment other) : e = other := by
  cases h with
  | again hpath _ _ =>
    cases hother with
    | again hpath' _ _ =>
      cases hpath.symm.trans hpath'
      rfl
  | misplaced hpath _ _ _ _ =>
    cases hother with
    | misplaced hpath' _ _ _ _ =>
      cases hpath.symm.trans hpath'
      rfl
  | stray hpath hlinks =>
    cases hother with
    | stray hpath' hlinks' =>
      cases hpath.symm.trans hpath'
      have hfirst := Link.nodes_eq_error_iff.mpr ⟨_, _, hlinks⟩
      have hsecond := Link.nodes_eq_error_iff.mpr ⟨_, _, hlinks'⟩
      cases hfirst.symm.trans hsecond
      rfl

/-- There is at most one first event. -/
theorem FirstEvent.unique {e other : RunError} (h : FirstEvent linter source resolve root e)
    (hother : FirstEvent linter source resolve root other) : e = other := by
  obtain ⟨moment, hevent, hfirst⟩ := h
  obtain ⟨moment', hevent', hfirst'⟩ := hother
  by_cases hsame : moment = moment'
  · subst hsame
    exact hevent.unique hevent'
  · rcases Moment.precedes_total hsame with hlt | hlt
    · exact absurd hlt (hfirst' _ _ hevent)
    · exact absurd hlt (hfirst _ _ hevent')

/-- The error with which a run ends when its walk stops. -/
def stopError : Graph.Stop Text.OffsetError → RunError
  | .malformed defect => .malformed defect
  | .visitor e => .position e

/-- How the end of a walk is told by events: it stops at the first, or there is none. -/
def EndsByEvent (linter : Linter) (source : Source) (resolve : Types.Resolver)
    (root : Fin source.graph.size) : Except (Graph.Stop Text.OffsetError) Nat → Prop
  | .ok _ => ∀ moment e, ¬ Event linter source resolve root moment e
  | .error stop => FirstEvent linter source resolve root (stopError stop)

section Step

variable {i : Fin source.graph.size} {fresh rest : List (Fin source.graph.size)}
  {path : NodePath} {paths : List NodePath}

/-- A node comes up again exactly when it occurs before. -/
theorem event_arrival_iff (hpath : source.graph.follow? root path = some i) {e : RunError} :
    Event linter source resolve root ⟨path, .arrival⟩ e ↔
      (∃ earlier, source.graph.follow? root earlier = some i ∧ earlier < path) ∧
        e = .malformed (.repeated (source.graph.node i)) := by
  constructor
  · intro h
    cases h with
    | again hpath' hearlier hlt =>
      cases hpath.symm.trans hpath'
      exact ⟨⟨_, hearlier, hlt⟩, rfl⟩
  · intro h
    obtain ⟨⟨earlier, hearlier, hlt⟩, rfl⟩ := h
    exact .again hpath hearlier hlt

/-- Evaluating a rule is abnormal exactly when its finding is misplaced. -/
theorem event_rule_iff (hpath : source.graph.follow? root path = some i) {place : Nat}
    {e : RunError} :
    Event linter source resolve root ⟨path, .rule place⟩ e ↔
      ∃ rule misplaced,
        (linter.registry.rulesFor (source.graph.node i).kind)[place]? = some rule ∧
        (linter.context source resolve).misplaced? (source.graph.vertex i) rule = some misplaced ∧
        e = .position misplaced := by
  constructor
  · intro h
    cases h with
    | misplaced hpath' hrule hfinding hlevel houtside =>
      cases hpath.symm.trans hpath'
      exact ⟨_, _, hrule,
        misplaced?_context_eq_some_iff.mpr ⟨⟨_, hfinding⟩, hlevel, houtside, rfl⟩, rfl⟩
  · intro h
    obtain ⟨rule, misplaced, hrule, hmisplaced, rfl⟩ := h
    obtain ⟨⟨finding, hfinding⟩, hlevel, houtside, rfl⟩ :=
      misplaced?_context_eq_some_iff.mp hmisplaced
    exact .misplaced hpath hrule hfinding hlevel houtside

/-- Looking at links is abnormal exactly when one of them leads to no node. -/
theorem event_links_iff (hpath : source.graph.follow? root path = some i) {e : RunError} :
    Event linter source resolve root ⟨path, .links⟩ e ↔
      ∃ value, Link.nodes (source.graph.links i) = .error value ∧
        e = .malformed (.strayChild (source.graph.node i) value) := by
  constructor
  · intro h
    cases h with
    | stray hpath' hlinks =>
      cases hpath.symm.trans hpath'
      exact ⟨_, Link.nodes_eq_error_iff.mpr ⟨_, _, hlinks⟩, rfl⟩
  · intro h
    obtain ⟨value, hvalue, rfl⟩ := h
    obtain ⟨before, after, hlinks⟩ := Link.nodes_eq_error_iff.mp hvalue
    exact .stray hpath hlinks

/-- Events happen at occurrences of nodes. -/
theorem Event.exists_follow? {moment : Moment} {e : RunError}
    (h : Event linter source resolve root moment e) :
    ∃ j, source.graph.follow? root moment.path = some j := by
  cases h with
  | again hpath _ _ => exact ⟨_, hpath⟩
  | misplaced hpath _ _ _ _ => exact ⟨_, hpath⟩
  | stray hpath _ => exact ⟨_, hpath⟩

/-- Where nothing happened behind the stack, what happens at its next entry, with nothing before it
there, happens first. -/
theorem firstEvent_of_head
    (inv : source.graph.Frontier root fresh (i :: rest) (path :: paths))
    (hquiet : ∀ moment e, Event linter source resolve root moment e →
      ¬ Graph.Behind (path :: paths) moment.path) {stage : Stage} {e : RunError}
    (hevent : Event linter source resolve root ⟨path, stage⟩ e)
    (hfirst : ∀ earlier other, earlier.Precedes stage →
      ¬ Event linter source resolve root ⟨path, earlier⟩ other) :
    FirstEvent linter source resolve root e := by
  refine ⟨_, hevent, fun earlier other hearlier hprecedes => ?_⟩
  rcases hprecedes with hlt | ⟨hpath, hstage⟩
  · exact hquiet earlier other hearlier (inv.behind_iff.mpr hlt)
  · obtain ⟨earlierPath, earlierStage⟩ := earlier
    cases hpath
    exact hfirst earlierStage other hstage hearlier

/-- A node that was not met before does not come up again. -/
theorem not_event_arrival (inv : source.graph.Frontier root fresh (i :: rest) (path :: paths))
    (hfresh : i ∈ fresh) (e : RunError) :
    ¬ Event linter source resolve root ⟨path, .arrival⟩ e := by
  rw [event_arrival_iff inv.follow?_head]
  intro h
  exact inv.not_mem_fresh_iff.mpr h.1 hfresh

/-- Rules without misplaced findings are evaluated without an event. -/
theorem not_event_rule (hpath : source.graph.follow? root path = some i) {place : Nat}
    (hrules : ∀ rule ∈ (linter.registry.rulesFor (source.graph.node i).kind)[place]?,
      (linter.context source resolve).misplaced? (source.graph.vertex i) rule = none)
    (e : RunError) : ¬ Event linter source resolve root ⟨path, .rule place⟩ e := by
  rw [event_rule_iff hpath]
  intro h
  obtain ⟨rule, misplaced, hrule, hmisplaced, _⟩ := h
  rw [hrules rule hrule] at hmisplaced
  cases hmisplaced

/-- A check that fails, or whose finding is not enforced, is no event. -/
theorem not_event_rule_of_contained (hpath : source.graph.follow? root path = some i) {place : Nat}
    {rule : Rule}
    (hrule : (linter.registry.rulesFor (source.graph.node i).kind)[place]? = some rule)
    (hcontained : (∃ fault, (rule.check (source.graph.vertex i)).eval resolve = .error fault) ∨
      linter.config.levelFor linter.registry source.text rule.info = .allow) (e : RunError) :
    ¬ Event linter source resolve root ⟨path, .rule place⟩ e := by
  refine not_event_rule hpath (fun found hfound => ?_) e
  cases Option.some.inj (hrule.symm.trans hfound)
  apply Option.eq_none_iff_forall_ne_some.mpr
  intro misplaced hmisplaced
  obtain ⟨⟨finding, hfinding⟩, hlevel, _⟩ := misplaced?_context_eq_some_iff.mp hmisplaced
  rcases hcontained with ⟨fault, hfault⟩ | hallow
  · cases hfault.symm.trans hfinding
  · exact hlevel hallow

end Step

/-- The visitor of a run. -/
def visitor (linter : Linter) (source : Source) (resolve : Types.Resolver) (tally : Tally)
    (i : Fin source.graph.size) : Tally × Option Text.OffsetError :=
  (linter.context source resolve).visit tally (source.graph.vertex i)

/-- Visiting a node ends a run by the first misplaced finding on it. -/
theorem visitor_snd (linter : Linter) (source : Source) (resolve : Types.Resolver) (tally : Tally)
    (i : Fin source.graph.size) :
    (linter.visitor source resolve tally i).2 =
      (linter.registry.rulesFor (source.graph.node i).kind).findSome?
        ((linter.context source resolve).misplaced? (source.graph.vertex i)) :=
  RunContext.visit_snd (source.graph.vertex i) tally

/-- Where the visit of a node did not end the run, its rules were evaluated without an event. -/
theorem not_event_rule_of_visit {path : NodePath} {i : Fin source.graph.size}
    (hpath : source.graph.follow? root path = some i) {tally next : Tally}
    (hvisit : linter.visitor source resolve tally i = (next, none)) (place : Nat) (e : RunError) :
    ¬ Event linter source resolve root ⟨path, .rule place⟩ e := by
  have hnone := visitor_snd linter source resolve tally i
  rw [hvisit] at hnone
  refine not_event_rule hpath (fun rule hrule => ?_) e
  exact List.findSome?_eq_none_iff.mp hnone.symm rule (List.mem_of_getElem? hrule)

/-- Walking on from a stack, with nothing abnormal behind it, stops at the first event. -/
theorem endsByEvent_walkFrom {fresh stack : List (Fin source.graph.size)} {paths : List NodePath}
    (inv : source.graph.Frontier root fresh stack paths)
    (hquiet : ∀ moment e, Event linter source resolve root moment e →
      ¬ Graph.Behind paths moment.path) (count : Nat) (tally : Tally) :
    EndsByEvent linter source resolve root
      (source.graph.walkFrom (linter.visitor source resolve) fresh stack count tally).outcome := by
  fun_induction Graph.walkFrom source.graph (linter.visitor source resolve) fresh stack count tally
    generalizing paths with
  | case1 =>
    cases inv.leads
    intro moment e hevent
    exact hquiet moment e hevent (List.forall_mem_nil _)
  | case2 fresh count tally i rest hi next reason hvisit =>
    obtain ⟨path, paths, rfl⟩ := inv.exists_head
    have hreason := visitor_snd linter source resolve tally i
    rw [hvisit] at hreason
    obtain ⟨before, rule, after, hrules, hrule, hbefore⟩ :=
      List.findSome?_eq_some_iff.mp hreason.symm
    have hplace : (linter.registry.rulesFor (source.graph.node i).kind)[before.length]? =
        some rule := by
      rw [hrules]
      simp
    apply firstEvent_of_head inv hquiet
      ((event_rule_iff inv.follow?_head).mpr ⟨rule, reason, hplace, hrule, rfl⟩)
    intro earlier other hprecedes
    cases earlier with
    | arrival => exact not_event_arrival inv hi other
    | rule place =>
      refine not_event_rule inv.follow?_head (fun found hfound => hbefore found ?_) other
      rw [hrules, List.getElem?_append_left hprecedes] at hfound
      exact List.mem_of_getElem? hfound
    | links => cases hprecedes
  | case3 fresh count tally i rest hi next hvisit value hlinks =>
    obtain ⟨path, paths, rfl⟩ := inv.exists_head
    apply firstEvent_of_head inv hquiet
      ((event_links_iff inv.follow?_head).mpr ⟨value, hlinks, rfl⟩)
    intro earlier other hprecedes
    cases earlier with
    | arrival => exact not_event_arrival inv hi other
    | rule place => exact not_event_rule_of_visit inv.follow?_head hvisit place other
    | links => cases hprecedes
  | case4 fresh count tally i rest hi next hvisit below hlinks _ ih =>
    obtain ⟨path, paths, rfl⟩ := inv.exists_head
    have hnodes := Link.nodes_eq_ok_iff.mp hlinks
    apply ih (inv.step hnodes)
    intro moment e hevent hbehind
    obtain ⟨j, hj⟩ := hevent.exists_follow?
    rcases (inv.behind_step_iff hnodes hj).mp hbehind with hpath | hold
    · -- The node was new, its rules found nothing to report outside the text, and its links lead
      -- to nodes.
      obtain ⟨momentPath, stage⟩ := moment
      cases hpath
      cases stage with
      | arrival => exact not_event_arrival inv hi e hevent
      | rule place => exact not_event_rule_of_visit inv.follow?_head hvisit place e hevent
      | links =>
        obtain ⟨value, hvalue, _⟩ := (event_links_iff inv.follow?_head).mp hevent
        cases hlinks.symm.trans hvalue
    · exact hquiet moment e hevent hold
  | case5 fresh count tally i rest hi =>
    obtain ⟨path, paths, rfl⟩ := inv.exists_head
    apply firstEvent_of_head inv hquiet
      ((event_arrival_iff inv.follow?_head).mpr ⟨inv.not_mem_fresh_iff.mp hi, rfl⟩)
    intro earlier other hprecedes
    cases earlier <;> cases hprecedes

/-- A run over a source whose root is in order fails with the first event, and returns if there is
none. -/
theorem endsByEvent_walked (linter : Linter) (resolve : Types.Resolver)
    (hroot : source.root = .node root) :
    EndsByEvent linter source resolve root (linter.walked source resolve).outcome := by
  have hwalk : linter.walked source resolve =
      source.graph.walkFrom (linter.visitor source resolve) (List.finRange source.graph.size) [root]
        0 {} := by
    unfold walked Graph.walk
    rw [hroot]
    rfl
  rw [hwalk]
  apply endsByEvent_walkFrom (Graph.frontier_start root)
  intro moment e _ hbehind
  exact Graph.not_append_lt [] moment.path (hbehind [] (List.mem_singleton_self _))

/-- The outcome of a run whose root is in order is an error exactly when its walk stops. -/
theorem runWalk_outcome_eq_error_iff {e : RunError} :
    (linter.runWalk source resolve).outcome = .error e ↔
      ∃ stop, (linter.walked source resolve).outcome = .error stop ∧ e = stopError stop := by
  rw [runWalk_outcome_eq_walked]
  rcases (linter.walked source resolve).outcome with (defect | misplaced) | count
  · simp [stopError, eq_comm]
  · simp [stopError, eq_comm]
  · simp

/-- From a root for a whole file a run fails exactly when there is an event, and with the first. -/
theorem runWalk_fails_iff (linter : Linter) (resolve : Types.Resolver)
    (hroot : source.root = .node root) :
    ((∃ e, (linter.runWalk source resolve).outcome = .error e) ↔
      ∃ moment e, Event linter source resolve root moment e) ∧
    ∀ e, (linter.runWalk source resolve).outcome = .error e ↔
      FirstEvent linter source resolve root e := by
  have hends := endsByEvent_walked linter resolve hroot
  simp only [runWalk_outcome_eq_error_iff]
  cases houtcome : (linter.walked source resolve).outcome with
  | ok count =>
    rw [houtcome] at hends
    refine ⟨⟨fun h => ?_, fun h => ?_⟩, fun e => ⟨fun h => ?_, fun h => ?_⟩⟩
    · obtain ⟨e, stop, hstop, _⟩ := h
      cases hstop
    · obtain ⟨moment, e, hevent⟩ := h
      exact absurd hevent (hends moment e)
    · obtain ⟨stop, hstop, _⟩ := h
      cases hstop
    · obtain ⟨moment, hevent, _⟩ := h
      exact absurd hevent (hends moment e)
  | error stop =>
    rw [houtcome] at hends
    have hfirst : FirstEvent linter source resolve root (stopError stop) := hends
    refine ⟨⟨fun _ => ?_, fun _ => ⟨_, stop, rfl, rfl⟩⟩, fun e => ⟨fun h => ?_, fun h => ?_⟩⟩
    · obtain ⟨moment, hevent, _⟩ := hfirst
      exact ⟨moment, _, hevent⟩
    · obtain ⟨_, hstop, rfl⟩ := h
      cases hstop
      exact hfirst
    · exact ⟨stop, rfl, h.unique hfirst⟩

/-- A run with a resolver refuses, before any check, a root that is no node for a whole file. From
any other root it fails exactly when something abnormal happens, and with the error of the first
event: in pre-order of occurrences, and at each by its arrival, then the rules for its kind in order
of registration, then its links. A check that fails and a finding that is not enforced are no
events. -/
theorem run_fails_with_first_event (linter : Linter) (source : Source)
    (resolver : Option Types.Resolver) (resolve : Types.Resolver)
    (hresolve : resolver.or linter.resolver = some resolve) :
    (source.root = .stray .nothing →
      linter.run source resolver = ⟨.error (.noRoot source.fileName), [], []⟩) ∧
    (∀ value, source.root = .stray value → value ≠ .nothing →
      linter.run source resolver =
        ⟨.error (.wrongRoot source.fileName value.display), [], []⟩) ∧
    (∀ root, source.root = .node root → (source.graph.node root).kind ≠ .sourceFile →
      linter.run source resolver =
        ⟨.error (.wrongRoot source.fileName (source.graph.node root).display), [], []⟩) ∧
    (∀ root, source.root = .node root → (source.graph.node root).kind = .sourceFile →
      ((∃ e, (linter.run source resolver).outcome = .error e) ↔
        ∃ moment e, Event linter source resolve root moment e) ∧
      (∀ e, (linter.run source resolver).outcome = .error e ↔
        FirstEvent linter source resolve root e) ∧
      (∀ path i place rule e, source.graph.follow? root path = some i →
        (linter.registry.rulesFor (source.graph.node i).kind)[place]? = some rule →
        (∃ fault, (rule.check (source.graph.vertex i)).eval resolve = .error fault) ∨
          linter.config.levelFor linter.registry source.text rule.info = .allow →
        ¬ Event linter source resolve root ⟨path, .rule place⟩ e)) ∧
    (∀ rules, Registry.ofRules rules = .ok linter.registry → ∀ kind,
      linter.registry.rulesFor kind = rules.filter (·.inspects kind)) := by
  have hrefused {e : RunError} (hcheck : checkRoot source = .error e) :
      linter.run source resolver = ⟨.error e, [], []⟩ := by
    simp only [run, hresolve, hcheck]
  refine ⟨fun hroot => ?_, fun value hroot hvalue => ?_, fun root hroot hkind => ?_,
    fun root hroot hkind => ?_, fun rules hrules kind => ?_⟩
  · apply hrefused
    rw [checkRoot, hroot]
  · apply hrefused
    rw [checkRoot, hroot]
    cases value with
    | nothing => exact absurd rfl hvalue
    | _ => rfl
  · apply hrefused
    rw [checkRoot, hroot]
    simp only [hkind, if_false]
  · have hcheck := checkRoot_eq_ok_iff.mpr ⟨root, hroot, hkind⟩
    have hwalk : linter.run source resolver = linter.runWalk source resolve := by
      simp only [run, hresolve, hcheck]
    rw [hwalk]
    obtain ⟨hfails, hfirst⟩ := runWalk_fails_iff linter resolve hroot
    refine ⟨hfails, hfirst, fun path i place rule e hpath hrule hcontained => ?_⟩
    exact not_event_rule_of_contained hpath hrule hcontained e
  · obtain ⟨hregistry, hlist⟩ := Registry.consistent_of_ofRules hrules
    rw [hregistry.rulesFor_eq, hlist]

/-- An empty file with a function that is its child twice and starts behind the text. -/
def sharedFunction : Source where
  fileName := "a.ts"
  text := ""
  graph := {
    size := 2
    cells := #v[⟨{ kind := .sourceFile, start := 0 },
        [.node ⟨1, by decide⟩, .node ⟨1, by decide⟩]⟩,
      ⟨{ kind := .functionDeclaration, start := 5 }, []⟩] }
  root := .node (⟨0, by decide⟩ : Fin 2)

/-- The finding on the function ends the run before the function comes up again. -/
theorem run_sharedFunction :
    (none : Option Types.Resolver).or ({ resolver := some .declared } : Linter).resolver =
      some .declared ∧
    (({ resolver := some .declared } : Linter).run sharedFunction none).outcome =
      .error (.position ⟨5, 0⟩) := by
  have hresolve : (none : Option Types.Resolver).or
      ({ resolver := some .declared } : Linter).resolver = some .declared := rfl
  obtain ⟨_, _, _, hruns, _⟩ := run_fails_with_first_event { resolver := some .declared }
    sharedFunction none .declared hresolve
  refine ⟨hresolve, ((hruns (0 : Fin 2) rfl rfl).2.1 _).mpr ⟨⟨[0], .rule 0⟩, ?_, ?_⟩⟩
  · have hlevel : ({ resolver := some .declared } : Linter).config.levelFor Registry.reference
        sharedFunction.text Catalog.explicitReturnTypeInfo ≠ .allow := by decide +kernel
    exact @Event.misplaced _ sharedFunction _ (0 : Fin 2) [0] (1 : Fin 2) 0
      Catalog.explicitReturnType _ rfl rfl rfl hlevel (by decide +kernel)
  · intro earlier other hevent hprecedes
    have hroot (path : NodePath) (hlt : path < [0]) : path = [] := by
      cases path with
      | nil => rfl
      | cons place rest => simp [List.cons_lt_cons_iff, List.not_lt_nil] at hlt
    obtain ⟨path, stage⟩ := earlier
    rcases hprecedes with hlt | ⟨hpath, hstage⟩
    · -- Nothing is abnormal about the file itself.
      cases hroot path hlt
      cases stage with
      | arrival =>
        obtain ⟨⟨before, _, hbefore⟩, _⟩ := (event_arrival_iff rfl).mp hevent
        exact List.not_lt_nil before hbefore
      | rule place =>
        obtain ⟨_, _, hrule, _⟩ := (event_rule_iff rfl).mp hevent
        cases hrule
      | links =>
        obtain ⟨_, hvalue, _⟩ := (event_links_iff rfl).mp hevent
        cases hvalue
    · cases hpath
      cases stage with
      | arrival =>
        -- Only the file comes up before the function.
        obtain ⟨⟨before, hbefore, hlt⟩, _⟩ :=
          (event_arrival_iff (i := (1 : Fin 2)) rfl).mp hevent
        cases hroot before hlt
        cases hbefore
      | rule place => exact absurd hstage (Nat.not_lt_zero place)
      | links => cases hstage

end Linter

end TreeLint
