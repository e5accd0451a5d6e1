import TreeLint.Config.Levels
import TreeLint.Report.Diagnostic
import TreeLint.Tree.Document
import TreeLint.Tree.Walk

/-!
# Linting one source

A run walks over the nodes of a source, evaluates on each node the rules registered for its kind,
and places the findings. A check that fails is recorded and the walk goes on; a malformed tree or
a finding outside the text ends the run. Notes and questions to the resolver are part of the
answer also when the run ends early.
-/

namespace TreeLint

/-- A source with its nodes and the link to its root. -/
structure Source where
  fileName : String
  text : String
  graph : Graph
  root : Link graph.size

/-- The source of a decoded document. -/
def LoadedTree.source (loaded : LoadedTree) : Source :=
  ⟨loaded.fileName, loaded.text, loaded.tree.toGraph, loaded.tree.rootLink⟩

/-- A check that failed on a node. -/
structure RuleFailure where
  code : String
  kind : Kind
  offset : Int
  error : String
deriving DecidableEq

/-- A failed check in one line. -/
def RuleFailure.display (failure : RuleFailure) : String :=
  s!"{failure.code} on {failure.kind.label} @{failure.offset}: {failure.error}"

/-- Counters and failures of a run. -/
structure Stats where
  nodesVisited : Nat := 0
  rulesEvaluated : Nat := 0
  findings : Nat := 0
  suppressed : Nat := 0
  failures : List RuleFailure := []
deriving DecidableEq

/-- What a run over a source gives. -/
structure LintResult where
  fileName : String
  text : String
  diagnostics : List Diagnostic
  stats : Stats
deriving DecidableEq

/-- Whether some diagnostic is an error. -/
def LintResult.hasErrors (result : LintResult) : Bool :=
  result.diagnostics.any Diagnostic.isError

/-- Why a run ends without a result. -/
inductive RunError where
  | noResolver
  | noRoot (fileName : String)
  | wrongRoot (fileName root : String)
  | malformed (defect : Malformed)
  | position (e : Text.OffsetError)
deriving DecidableEq

/-- The wording of a run that ends without a result. -/
def RunError.message : RunError → String
  | .noResolver => "no type resolver given to the linter or to run()"
  | .noRoot fileName => s!"{fileName}: syntax tree has no root node"
  | .wrongRoot fileName root => s!"{fileName}: tree root must be a SourceFile node, got {root}"
  | .malformed defect => defect.message
  | .position e => e.message

/-- What a run has collected so far. -/
structure Tally where
  nodesVisited : Nat := 0
  rulesEvaluated : Nat := 0
  findings : Nat := 0
  suppressed : Nat := 0
  failures : Array RuleFailure := #[]
  diagnostics : Array Diagnostic := #[]
  notes : Array Note := #[]
  asked : Array Vertex := #[]

/-- What stays the same during a run. -/
structure RunContext where
  registry : Registry
  config : Configuration
  resolve : Types.Resolver
  fileName : String
  lines : Text.LineMap

/-- The severity of a finding of a rule enforced at a level; none if it is not enforced. -/
def Level.severity? : Level → Option Severity
  | .allow => none
  | .warn => some .warning
  | .deny => some .error

namespace RunContext

/-- Place the finding of a rule on a node. -/
def place (ctx : RunContext) (rule : Rule) (node : Node) (finding : Finding)
    (severity : Severity) : Except Text.OffsetError Diagnostic :=
  Diagnostic.place ctx.fileName ctx.lines node.start finding.message rule.info.code
    rule.info.name severity finding.suggestion

/-- Record the verdict of a rule on a node. A finding that cannot be placed ends the run. -/
def record (ctx : RunContext) (rule : Rule) (node : Node) (tally : Tally) :
    Verdict → Tally × Option Text.OffsetError
  | .error fault =>
    ({ tally with
        failures := tally.failures.push
          ⟨rule.info.code, node.kind, node.start, fault.summary⟩
        notes := tally.notes.push
          ⟨.warning, s!"rule {rule.info.code} failed on {node.display}: {fault.text}"⟩ }, none)
  | .ok none => (tally, none)
  | .ok (some finding) =>
    let tally := { tally with findings := tally.findings + 1 }
    match (ctx.config.level rule.info).severity? with
    | none => ({ tally with suppressed := tally.suppressed + 1 }, none)
    | some severity =>
      match ctx.place rule node finding severity with
      | .ok diagnostic => ({ tally with diagnostics := tally.diagnostics.push diagnostic }, none)
      | .error e => (tally, some e)

/-- Evaluate one rule on the node at a vertex. -/
def evaluate (ctx : RunContext) (vertex : Vertex) (tally : Tally) (rule : Rule) :
    Tally × Option Text.OffsetError :=
  let check := rule.check vertex
  let tally := { tally with
    rulesEvaluated := tally.rulesEvaluated + 1
    asked := tally.asked ++ check.asked ctx.resolve }
  ctx.record rule vertex.node tally (check.eval ctx.resolve)

/-- Evaluate rules on the node at a vertex, one after the other. -/
def evaluateAll (ctx : RunContext) (vertex : Vertex) (tally : Tally) :
    List Rule → Tally × Option Text.OffsetError
  | [] => (tally, none)
  | rule :: rest =>
    match ctx.evaluate vertex tally rule with
    | (tally, some e) => (tally, some e)
    | (tally, none) => ctx.evaluateAll vertex tally rest

/-- Visit the node at a vertex: evaluate the rules registered for its kind. -/
def visit (ctx : RunContext) (tally : Tally) (vertex : Vertex) :
    Tally × Option Text.OffsetError :=
  ctx.evaluateAll vertex { tally with nodesVisited := tally.nodesVisited + 1 }
    (ctx.registry.rulesFor vertex.node.kind)

end RunContext

/-- The outcome of a run, with all notes and the vertices of all nodes whose types were asked
for. -/
structure Run where
  outcome : Except RunError LintResult
  notes : List Note
  asked : List Vertex

/-- Rules, a resolver for runs that bring none, and configured levels. -/
structure Linter where
  registry : Registry := Registry.reference
  resolver : Option Types.Resolver := none
  config : Configuration := {}

namespace Linter

/-- The root of a source must be a node for a whole file. -/
def checkRoot (source : Source) : Except RunError Unit :=
  match source.root with
  | .stray .nothing => .error (.noRoot source.fileName)
  | .stray value => .error (.wrongRoot source.fileName value.display)
  | .node i =>
    let node := source.graph.node i
    if node.kind = .sourceFile then .ok ()
    else .error (.wrongRoot source.fileName node.display)

/-- The levels for a source, with the notes about its directives. -/
def configFor (linter : Linter) (source : Source) : Configuration × List Note :=
  if linter.config.honorsDirectives then
    linter.config.withDirectives source.text (some linter.registry)
  else (linter.config, [])

/-- The result of a run that reached its end. -/
def result (source : Source) (tally : Tally) : LintResult where
  fileName := source.fileName
  text := source.text
  diagnostics := tally.diagnostics.toList
  stats := ⟨tally.nodesVisited, tally.rulesEvaluated, tally.findings, tally.suppressed,
    tally.failures.toList⟩

/-- The note at the end of a run. -/
def closingNote (result : LintResult) : Note :=
  ⟨.debug, s!"linted {result.fileName}: {result.stats.nodesVisited} node(s), " ++
    s!"{result.diagnostics.length} diagnostic(s), " ++
    s!"{result.stats.failures.length} rule failure(s)"⟩

/-- Walk over a source whose root is in order. -/
def runWalk (linter : Linter) (source : Source) (resolve : Types.Resolver) : Run :=
  let (config, notes) := linter.configFor source
  let opening : Note :=
    ⟨.debug, s!"linting {source.fileName} with {linter.registry.size} rule(s)"⟩
  let ctx : RunContext :=
    ⟨linter.registry, config, resolve, source.fileName, .ofText source.text⟩
  let walked := source.graph.walk source.root
    (fun tally i => ctx.visit tally (source.graph.vertex i)) {}
  let tally := walked.state
  let notes := notes ++ opening :: tally.notes.toList
  match walked.outcome with
  | .ok _ =>
    let result := result source tally
    ⟨.ok result, notes ++ [closingNote result], tally.asked.toList⟩
  | .error (.malformed defect) => ⟨.error (.malformed defect), notes, tally.asked.toList⟩
  | .error (.visitor e) => ⟨.error (.position e), notes, tally.asked.toList⟩

/-- Lint one source. The resolver of the run, if there is one, takes the place of the linter's. -/
def run (linter : Linter) (source : Source) (resolver : Option Types.Resolver) : Run :=
  match resolver.or linter.resolver with
  | none => ⟨.error .noResolver, [], []⟩
  | some resolve =>
    match checkRoot source with
    | .error e => ⟨.error e, [], []⟩
    | .ok () => linter.runWalk source resolve

end Linter

end TreeLint
