import TreeLint.Config.Directive
import TreeLint.Note
import TreeLint.Rule.Registry
import TreeLint.Text.Line

/-!
# Configured levels

A configuration assigns levels to identifiers of rules. A level given to the code of a rule counts
before one given to its name, and a rule without either has its own level. Directives in the
linted source override all of this for that source; a directive that is malformed or names an
unknown rule is skipped with a note.
-/

namespace TreeLint

/-- Levels by identifier, and whether directives in the source are honoured. -/
structure Configuration where
  levels : Table String Level := []
  honorsDirectives : Bool := true
deriving DecidableEq

namespace Configuration

/-- The level at which a rule is enforced. -/
def level (config : Configuration) (info : RuleInfo) : Level :=
  match config.levels.get? info.code with
  | some level => level
  | none => (config.levels.get? info.name).getD info.level

/-- Give a level to an identifier. -/
def set (config : Configuration) (identifier : String) (level : Level) : Configuration :=
  { config with levels := config.levels.set identifier level }

/-- A level given to the code of a rule is its level. -/
@[simp] theorem level_set_code (config : Configuration) (info : RuleInfo) (level : Level) :
    (config.set info.code level).level info = level := by
  simp [Configuration.level, set]

/-- A level given to another identifier leaves a rule as it was. -/
theorem level_set_of_ne (config : Configuration) {info : RuleInfo} {identifier : String}
    (level : Level) (hcode : info.code ≠ identifier) (hname : info.name ≠ identifier) :
    (config.set identifier level).level info = config.level info := by
  simp only [Configuration.level, set]
  rw [Table.get?_set_of_ne _ _ hcode, Table.get?_set_of_ne _ _ hname]

/-- Give a level to the codes of some rules. -/
def setRules (config : Configuration) (rules : List Rule) (level : Level) : Configuration :=
  rules.foldl (fun config rule => config.set rule.info.code level) config

/-- Give a level to all rules of a category. -/
def setCategory (config : Configuration) (category : Category) (level : Level)
    (registry : Registry) : Configuration :=
  config.setRules (registry.rules.filter (·.info.category = category)) level

/-- Give a level to all rules. -/
def setAll (config : Configuration) (level : Level) (registry : Registry) : Configuration :=
  config.setRules registry.rules level

/-- Apply the directive of one line, if it has one. With a registry the directive must name one of
its rules, and is stored by the code of that rule; without one it is stored as written. -/
def applyLine (registry : Option Registry) (config : Configuration) (line : Nat)
    (text : List Char) : Configuration × Option Note :=
  match Directive.find? text with
  | none => (config, none)
  | some found =>
    match Directive.parse found with
    | .error e => (config, some ⟨.warning, s!"line {line}: {e.message}"⟩)
    | .ok directive =>
      match registry with
      | none => (config.set directive.identifier directive.level, none)
      | some registry =>
        match registry.get? directive.identifier with
        | some rule => (config.set rule.info.code directive.level, none)
        | none =>
          (config, some ⟨.warning,
            s!"line {line}: unknown rule '{directive.identifier}' in lint directive"⟩)

/-- Apply the directives of numbered lines in order. -/
def applyLines (registry : Option Registry) (config : Configuration) :
    List (Nat × List Char) → Configuration × List Note
  | [] => (config, [])
  | (line, text) :: rest =>
    let (config, note) := config.applyLine registry line text
    let (config, notes) := config.applyLines registry rest
    (config, note.toList ++ notes)

/-- The configuration for a source: its directives applied in order of lines. -/
def withDirectives (config : Configuration) (source : String) (registry : Option Registry) :
    Configuration × List Note :=
  config.applyLines registry (Text.LineMap.ofText source).numberedLines

end Configuration

end TreeLint
