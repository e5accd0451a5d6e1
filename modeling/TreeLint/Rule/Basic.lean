import TreeLint.Text.Template
import TreeLint.Types.Resolver

/-!
# Lint rules

A rule has a description, the kinds of nodes that it inspects, and a check. A check is given a node
at its place in the graph, so that it sees what hangs below it. It is a dialogue: it may ask for the
types of nodes, any number of times and depending on earlier answers, and ends with a finding, with
no finding, or by failing. Running a check against a resolver gives its outcome, and the vertices it
asked about.
-/

namespace TreeLint

/-- How strictly a rule is enforced: not at all, as a warning, or as an error. -/
inductive Level where
  | allow
  | warn
  | deny
deriving DecidableEq

namespace Level

/-- All levels, mildest first. -/
def all : List Level :=
  [.allow, .warn, .deny]

/-- The name of a level in directives and options. -/
def label : Level → String
  | .allow => "allow"
  | .warn => "warn"
  | .deny => "deny"

/-- The level with a given name. -/
def ofLabel? (name : String) : Option Level :=
  all.find? (·.label = name)

end Level

/-- What a rule is about. -/
inductive Category where
  | types
  | style
deriving DecidableEq

namespace Category

/-- All categories, in the order in which they are listed to users. -/
def all : List Category :=
  [.types, .style]

/-- The name of a category. -/
def label : Category → String
  | .types => "types"
  | .style => "style"

/-- The category with a given name. -/
def ofLabel? (name : String) : Option Category :=
  all.find? (·.label = name)

end Category

/-- A finding: what to tell the user, and perhaps what to do about it. -/
structure Finding where
  message : String
  suggestion : Option String := none
deriving DecidableEq

/-- The description of a rule. Message and suggestion are templates. -/
structure RuleInfo where
  code : String
  name : String
  category : Category
  message : String
  level : Level := .warn
  suggestion : Option String := none
deriving DecidableEq

namespace RuleInfo

/-- A rule as messages show it. -/
def display (info : RuleInfo) : String :=
  s!"{info.code} ({info.name})"

/-- Fill a suggestion. Arguments that it asks for and does not get leave it as it is written; a
defect in its writing is an error. An empty suggestion is never filled. -/
def fillSuggestion (args : List String) : Option String → Except Text.TemplateError (Option String)
  | none => .ok none
  | some template =>
    if template.isEmpty then .ok (some template)
    else
      match Text.fill template args with
      | .ok text => .ok (some text)
      | .error (.malformed defect) => .error (.malformed defect)
      | .error _ => .ok (some template)

/-- The finding of a rule. Without arguments the templates stand as written. -/
def finding (info : RuleInfo) (args : List String) : Except Text.TemplateError Finding :=
  if args.isEmpty then .ok ⟨info.message, info.suggestion⟩
  else do
    let message ← Text.fill info.message args
    let suggestion ← fillSuggestion args info.suggestion
    return ⟨message, suggestion⟩

end RuleInfo

/-- The failure of a check: the sort of failure and its text. -/
structure Fault where
  sort : String
  text : String
deriving DecidableEq

/-- A failure in one line. -/
def Fault.summary (fault : Fault) : String :=
  s!"{fault.sort}: {fault.text}"

/-- The failure of a check that could not get the type of a node. -/
def Fault.ofResolve (e : Types.ResolveError) : Fault :=
  ⟨e.sort, e.message⟩

/-- The failure of a check whose templates could not be filled. -/
def Fault.ofTemplate (e : Text.TemplateError) : Fault :=
  match e with
  | .missingArgument _ => ⟨"IndexError", e.message⟩
  | .unknownName _ => ⟨"KeyError", e.message⟩
  | .malformed _ => ⟨"ValueError", e.message⟩

/-- What a check can end with. -/
abbrev Verdict := Except Fault (Option Finding)

/-- A check in progress: it has ended, or asks for the type of the node at a vertex and goes on with
the answer. -/
inductive Check where
  | done (verdict : Verdict)
  | ask (vertex : Vertex) (next : Except Types.ResolveError String → Check)

namespace Check

/-- No finding. -/
def pass : Check :=
  .done (.ok none)

/-- The finding of a rule with the given arguments. -/
def report (info : RuleInfo) (args : List String) : Check :=
  match info.finding args with
  | .ok finding => .done (.ok (some finding))
  | .error e => .done (.error (.ofTemplate e))

/-- Ask for the type of the node at a vertex; the check fails if there is none. -/
def withType (vertex : Vertex) (next : String → Check) : Check :=
  .ask vertex fun
    | .ok descriptor => next descriptor
    | .error e => .done (.error (.ofResolve e))

/-- The end of a check whose questions are answered by a resolver. -/
def eval (resolve : Types.Resolver) : Check → Verdict
  | .done verdict => verdict
  | .ask vertex next => (next (resolve vertex)).eval resolve

/-- The vertices a check asks about, in order, when its questions are answered by a resolver. -/
def asked (resolve : Types.Resolver) : Check → List Vertex
  | .done _ => []
  | .ask vertex next => vertex :: (next (resolve vertex)).asked resolve

/-- A check sees a resolver only through the answers to its questions. -/
theorem eval_congr {resolve other : Types.Resolver} (check : Check)
    (h : ∀ vertex ∈ check.asked resolve, other vertex = resolve vertex) :
    check.eval other = check.eval resolve ∧ check.asked other = check.asked resolve := by
  induction check with
  | done verdict => exact ⟨rfl, rfl⟩
  | ask vertex next ih =>
    have hvertex : other vertex = resolve vertex := h vertex List.mem_cons_self
    have hnext := ih (resolve vertex) fun v hv => h v (List.mem_cons_of_mem _ hv)
    simp only [eval, asked, hvertex]
    exact ⟨hnext.1, by rw [hnext.2]⟩

end Check

/-- A rule: its description, the title it is known by, the kinds it inspects and its check. -/
structure Rule where
  info : RuleInfo
  title : String
  kinds : List Kind
  check : Vertex → Check

namespace Rule

/-- A rule with its title, as messages show it. -/
def display (rule : Rule) : String :=
  s!"<{rule.title} {rule.info.display}>"

/-- Whether a rule inspects nodes of a kind. -/
def inspects (rule : Rule) (kind : Kind) : Bool :=
  rule.kinds.contains kind

end Rule

end TreeLint
