import TreeLint.Command.Grammar
import TreeLint.Command.Number
import TreeLint.Command.Usage
import TreeLint.Files
import TreeLint.Note

/-!
# What a command line asks for

A command line either ends the program at once, with a help text or an error, or is an invocation:
the importance from which notes are shown, and a command with its settings. Words that neither the
program nor its command has taken make it an error, reported for the program. An option that is
written without a value leaves a gap in the settings, which only counts once the setting is used.
-/

namespace TreeLint.Command

/-- How the results of linting are written. -/
inductive Format where
  | text
  | pretty
  | json
  | editor
deriving DecidableEq

namespace Format

/-- All formats, in the order in which they are offered. -/
def all : List Format :=
  [.text, .pretty, .json, .editor]

/-- The name of a format. -/
def label : Format → String
  | .text => "text"
  | .pretty => "pretty"
  | .json => "json"
  | .editor => "lsp"

/-- The format with a given name. -/
def ofLabel? (name : String) : Option Format :=
  all.find? (·.label = name)

end Format

/-- The settings of the lint command. Identifiers of rules stand in the order given, with a gap for
each that is missing; the number of jobs may be missing too. -/
structure LintSettings where
  inputs : List Path := []
  format : Format := .text
  allow : List (Option String) := []
  warn : List (Option String) := []
  deny : List (Option String) := []
  denyCategory : Option String := none
  ignoresDirectives : Bool := false
  allowsUnknownKinds : Bool := false
  jobs : Option Int := some 1
deriving DecidableEq

/-- The settings of the command that lists rules. -/
structure RulesSettings where
  asJson : Bool := false
deriving DecidableEq

/-- A command with its settings. -/
inductive Request where
  | lint (settings : LintSettings)
  | rules (settings : RulesSettings)
deriving DecidableEq

/-- What a command line asks for; without a command the help text is shown. The importance from
which notes are shown may be missing. -/
structure Invocation where
  threshold : Option Importance := some .warning
  request : Option Request := none
  unrecognized : List String := []
deriving DecidableEq

/-- The reason to refuse a value that is none of the choices. -/
def invalidChoice (value : String) (choices : List String) : String :=
  let offered := ", ".intercalate (choices.map Text.quoted)
  s!"invalid choice: {Text.quoted value} (choose from {offered})"

/-- An option whose value is one of the names of a closed list. -/
def choiceOption {σ α : Type} (names : List String) (choices : List α) (label : α → String)
    (set : Option α → σ → σ) : OptionSpec σ where
  names := names
  effect := .value fun
    | none, settings => .ok (set none settings)
    | some value, settings =>
      match choices.find? (label · = value) with
      | some choice => .ok (set (some choice) settings)
      | none => .error (invalidChoice value (choices.map label))

/-- An option that takes any text. -/
def textOption {σ : Type} (names : List String) (set : Option String → σ → σ) :
    OptionSpec σ where
  names := names
  effect := .value fun value settings => .ok (set value settings)

/-- An option that takes a whole number. -/
def numberOption {σ : Type} (names : List String) (set : Option Int → σ → σ) :
    OptionSpec σ where
  names := names
  effect := .value fun
    | none, settings => .ok (set none settings)
    | some value, settings =>
      match readWhole? value with
      | some n => .ok (set (some n) settings)
      | none => .error s!"invalid int value: {Text.quoted value}"

/-- An option that switches something on. -/
def flagOption {σ : Type} (names : List String) (set : σ → σ) : OptionSpec σ :=
  ⟨names, .flag set⟩

/-- An option that writes a text and ends the program. -/
def finishOption {σ : Type} (names : List String) (text : String) : OptionSpec σ :=
  ⟨names, .finish ⟨0, text, ""⟩⟩

/-- The grammar of the lint command. -/
def lintGrammar : Grammar LintSettings where
  program := "typelint lint"
  usage := lintUsage
  options :=
    [finishOption ["-h", "--help"] lintHelp,
     choiceOption ["--format"] Format.all Format.label fun f s =>
       { s with format := f.getD .text },
     textOption ["--allow"] fun id s => { s with allow := s.allow ++ [id] },
     textOption ["--warn"] fun id s => { s with warn := s.warn ++ [id] },
     textOption ["--deny"] fun id s => { s with deny := s.deny ++ [id] },
     textOption ["--deny-category"] fun name s => { s with denyCategory := name },
     flagOption ["--no-directives"] fun s => { s with ignoresDirectives := true },
     flagOption ["--allow-unknown-kinds"] fun s => { s with allowsUnknownKinds := true },
     numberOption ["--jobs", "-j"] fun n s => { s with jobs := n }]
  operands := some {
    name := "inputs"
    required := true
    takesRest := false
    take := fun words s => .ok { s with inputs := words.map Path.ofText } }

/-- The grammar of the command that lists rules. -/
def rulesGrammar : Grammar RulesSettings where
  program := "typelint rules"
  usage := rulesUsage
  options :=
    [finishOption ["-h", "--help"] rulesHelp,
     flagOption ["--json"] fun s => { s with asJson := true }]
  operands := none

/-- The names of the commands. -/
def commandNames : List String :=
  ["lint", "l", "rules"]

/-- Take a command and its words. -/
def takeCommand (words : List String) (invocation : Invocation) : Except Halt Invocation :=
  match words with
  | [] => .ok invocation
  | name :: rest =>
    if name = "lint" ∨ name = "l" then
      match lintGrammar.read {} rest with
      | .ok (settings, extras) =>
        .ok { invocation with request := some (.lint settings), unrecognized := extras }
      | .error output => .error (.ended output)
    else if name = "rules" then
      match rulesGrammar.read {} rest with
      | .ok (settings, extras) =>
        .ok { invocation with request := some (.rules settings), unrecognized := extras }
      | .error output => .error (.ended output)
    else .error (.refused s!"argument command: {invalidChoice name commandNames}")

/-- The grammar of the program. -/
def mainGrammar : Grammar Invocation where
  program := "typelint"
  usage := mainUsage
  options :=
    [finishOption ["-h", "--help"] mainHelp,
     finishOption ["-V", "--version"] version,
     choiceOption ["--log-level"] Importance.all Importance.label fun i s =>
       { s with threshold := i }]
  operands := some {
    name := "command"
    required := false
    takesRest := true
    take := takeCommand }

/-- Read a command line. -/
def Invocation.read (words : List String) : Except Output Invocation :=
  match mainGrammar.read {} words with
  | .error output => .error output
  | .ok (invocation, extras) =>
    match extras ++ invocation.unrecognized with
    | [] => .ok invocation
    | left =>
      let shown := " ".intercalate left
      .error (mainGrammar.misuse s!"unrecognized arguments: {shown}")

end TreeLint.Command
