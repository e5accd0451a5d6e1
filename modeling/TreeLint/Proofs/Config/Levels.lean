import Mathlib.Data.List.Induction
import TreeLint.Config.Levels
import TreeLint.Proofs.Rule.Registry

/-!
# Levels after directives

With a registry, a directive is stored under the code of the rule that it names. As no two rules of
a registry share an identifier, it changes the level of that rule and of no other. The level of a
rule after the directives of a source is therefore told by the directives that name the rule, the
last one counting; which other rules are registered does not matter.
-/

namespace TreeLint

/-- The level that the directive of a line gives to a rule, if the line has a well-formed one that
names the rule. -/
def Directive.levelIn? (text : List Char) (info : RuleInfo) : Option Level :=
  match Directive.find? text with
  | none => none
  | some found =>
    match Directive.parse found with
    | .error _ => none
    | .ok directive =>
      if info.IsCalled directive.identifier then some directive.level else none

/-- Two rules of a registry that are called by the same identifier are the same. -/
theorem Registry.Consistent.eq_of_isCalled {registry : Registry} (h : registry.Consistent)
    {rule other : Rule} (hrule : rule ∈ registry.rules) (hother : other ∈ registry.rules)
    {identifier : String} (hcalled : rule.info.IsCalled identifier)
    (hcalled' : other.info.IsCalled identifier) : rule = other := by
  have hget := (h.get?_eq_some_iff identifier rule).mpr ⟨hrule, hcalled⟩
  have hget' := (h.get?_eq_some_iff identifier other).mpr ⟨hother, hcalled'⟩
  exact Option.some.inj (hget.symm.trans hget')

/-- What is read after some steps was given by the last step that gives anything, if each step
replaces what is read or keeps it. -/
theorem read_foldl {σ α β : Type} (step : σ → α → σ) (read : σ → Option β) (given : α → Option β)
    (hstep : ∀ state item, read (step state item) = (given item).or (read state)) (state : σ)
    (items : List α) :
    read (items.foldl step state) = (items.filterMap given).getLast?.or (read state) := by
  induction items using List.reverseRecOn with
  | nil => rfl
  | append_singleton items item ih =>
    rw [List.foldl_append, List.foldl_cons, List.foldl_nil, hstep, ih, List.filterMap_append]
    cases hitem : given item <;> simp [hitem]

namespace Configuration

variable {registry : Registry} {rule : Rule}

/-- What an identifier has after a level was given to one. -/
theorem get?_set (config : Configuration) (identifier other : String) (level : Level) :
    (config.set identifier level).levels.get? other =
      (if identifier = other then some level else none).or (config.levels.get? other) := by
  by_cases h : identifier = other
  · rw [if_pos h, ← h]
    exact Table.get?_set_self _ _ _
  · rw [if_neg h]
    exact Table.get?_set_of_ne _ _ (Ne.symm h)

/-- The level of a rule, read off what is stored at its two identifiers. -/
theorem level_eq (config : Configuration) (info : RuleInfo) :
    config.level info =
      ((config.levels.get? info.code).or (config.levels.get? info.name)).getD info.level := by
  rw [level]
  cases config.levels.get? info.code <;> rfl

/-- Storing a level under the code of a registered rule changes the level of no other rule. -/
theorem level_set_code_of_ne (h : registry.Consistent) (hrule : rule ∈ registry.rules)
    {other : Rule} (hother : other ∈ registry.rules) (hne : rule ≠ other)
    (config : Configuration) (level : Level) :
    (config.set other.info.code level).level rule.info = config.level rule.info := by
  have hcalled : ¬ rule.info.IsCalled other.info.code := fun hcalled =>
    hne (h.eq_of_isCalled hrule hother hcalled other.info.isCalled_code)
  obtain ⟨hcode, hname⟩ := not_or.mp hcalled
  exact level_set_of_ne config level hcode hname

/-- After a line the level of a registered rule is the one that the directive of the line gives to
it, or else the level that it had. -/
theorem level_applyLine (h : registry.Consistent) (hrule : rule ∈ registry.rules)
    (config : Configuration) (line : Nat) (text : List Char) :
    (config.applyLine (some registry) line text).1.level rule.info =
      (Directive.levelIn? text rule.info).getD (config.level rule.info) := by
  unfold applyLine Directive.levelIn?
  cases hfind : Directive.find? text with
  | none => rfl
  | some found =>
    cases hparse : Directive.parse found with
    | error e => simp only [hparse, Option.getD_none]
    | ok directive =>
      simp only [hparse]
      by_cases hcalled : rule.info.IsCalled directive.identifier
      · have hget := (h.get?_eq_some_iff directive.identifier rule).mpr ⟨hrule, hcalled⟩
        rw [hget, if_pos hcalled, Option.getD_some]
        exact level_set_code config rule.info directive.level
      · rw [if_neg hcalled, Option.getD_none]
        cases hget : registry.get? directive.identifier with
        | none => rfl
        | some other =>
          obtain ⟨hother, hcalled'⟩ := (h.get?_eq_some_iff directive.identifier other).mp hget
          have hne : rule ≠ other := fun heq => hcalled (heq ▸ hcalled')
          exact level_set_code_of_ne h hrule hother hne config directive.level

/-- After some lines the level of a registered rule is the one given by the last directive that
names it, or else the level that it had. -/
theorem level_applyLines (h : registry.Consistent) (hrule : rule ∈ registry.rules)
    (config : Configuration) (lines : List (Nat × List Char)) :
    (config.applyLines (some registry) lines).1.level rule.info =
      lines.foldl (fun level line => (Directive.levelIn? line.2 rule.info).getD level)
        (config.level rule.info) := by
  induction lines generalizing config with
  | nil => rfl
  | cons line rest ih =>
    obtain ⟨number, text⟩ := line
    rw [List.foldl_cons, ← level_applyLine h hrule config number text]
    exact ih _

/-- The level of a rule for a source: its directives count if they are honoured. -/
def levelFor (config : Configuration) (registry : Registry) (text : String)
    (info : RuleInfo) : Level :=
  if config.honorsDirectives then (config.withDirectives text (some registry)).1.level info
  else config.level info

/-- The level of a registered rule for a source does not depend on the other rules. -/
theorem levelFor_congr {others : Registry} (h : registry.Consistent) (hothers : others.Consistent)
    (hrule : rule ∈ registry.rules) (hrule' : rule ∈ others.rules) (config : Configuration)
    (text : String) : config.levelFor registry text rule.info =
      config.levelFor others text rule.info := by
  unfold levelFor withDirectives
  rw [level_applyLines h hrule, level_applyLines hothers hrule']

end Configuration

end TreeLint
