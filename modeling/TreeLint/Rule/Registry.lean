import TreeLint.Rule.Catalog
import TreeLint.Table

/-!
# Rule registries

A registry holds rules in the order in which they were registered, which is the order in which
they are evaluated. Two indexes are kept beside the list, one by kind of node and one by
identifier; a rule is identified by its code and by its name, and no identifier is used twice.
-/

namespace TreeLint

/-- Why a rule cannot be registered. -/
inductive RegistryError where
  | noKinds (code : String)
  | taken (identifier : String)
deriving DecidableEq

/-- The wording of a refused rule. -/
def RegistryError.message : RegistryError → String
  | .noKinds code => s!"rule {code} does not apply to any node kind"
  | .taken identifier => s!"rule '{identifier}' is already registered"

/-- Rules in order of registration, with an index by kind and one by identifier. -/
structure Registry where
  rules : List Rule
  byKind : Table Kind (List Rule)
  byId : Table String Rule

namespace Registry

/-- The registry without rules. -/
def empty : Registry :=
  ⟨[], [], []⟩

/-- The rules that inspect a kind, in order of registration. -/
def rulesFor (registry : Registry) (kind : Kind) : List Rule :=
  (registry.byKind.get? kind).getD []

/-- The rule with a given code or name. -/
def get? (registry : Registry) (identifier : String) : Option Rule :=
  registry.byId.get? identifier

/-- Whether some rule has a given code or name. -/
def has (registry : Registry) (identifier : String) : Bool :=
  registry.byId.has identifier

/-- The kinds that some rule inspects. -/
def kinds (registry : Registry) : List Kind :=
  registry.byKind.keys

/-- The number of rules. -/
def size (registry : Registry) : Nat :=
  registry.rules.length

/-- Add a rule at the end of the list of a kind. -/
def indexKind (rule : Rule) (index : Table Kind (List Rule)) (kind : Kind) :
    Table Kind (List Rule) :=
  index.set kind ((index.get? kind).getD [] ++ [rule])

/-- Add a rule at the end. It must inspect some kind, and its code and name must be new. -/
def register (registry : Registry) (rule : Rule) : Except RegistryError Registry :=
  if rule.kinds.isEmpty then .error (.noKinds rule.info.code)
  else if registry.has rule.info.code then .error (.taken rule.info.code)
  else if registry.has rule.info.name then .error (.taken rule.info.name)
  else .ok {
    rules := registry.rules ++ [rule]
    byKind := (Kind.all.filter rule.inspects).foldl (indexKind rule) registry.byKind
    byId := (registry.byId.set rule.info.code rule).set rule.info.name rule }

/-- A rule that is registered goes to the end of the list. -/
theorem rules_of_register {registry next : Registry} {rule : Rule}
    (h : registry.register rule = .ok next) : next.rules = registry.rules ++ [rule] := by
  unfold register at h
  split at h
  · cases h
  · split at h
    · cases h
    · split at h
      · cases h
      · cases h
        rfl

/-- Register rules one after the other. -/
def ofRules (rules : List Rule) : Except RegistryError Registry :=
  rules.foldlM register empty

/-- The registry of the reference rules. -/
def reference : Registry :=
  (ofRules Catalog.rules).toOption.getD empty

end Registry

end TreeLint
