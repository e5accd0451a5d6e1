import TreeLint.Command.Lint
import TreeLint.Command.Rules

/-!
# The program

The program reads its command line, runs a command, and gives back its exit code and what it
writes to both output streams. Notes go to the error stream, each with a time stamp, if they are
important enough. Colours are used on a terminal unless the user has asked for none.
-/

namespace TreeLint.Command

/-- What the program knows about its surroundings: the files, whether it writes to a terminal,
what the user has set about colours, and the time stamp for notes. -/
structure Environment where
  files : FileSystem
  isTerminal : Bool
  noColor : Option String
  stamp : String

namespace Environment

/-- Whether output is coloured: on a terminal, unless the user has set a text against it. -/
def palette (env : Environment) : Palette :=
  ⟨env.isTerminal && (env.noColor.getD "").isEmpty⟩

/-- A note as a row on the error stream. -/
def noteRow (env : Environment) (note : Note) : String :=
  s!"{env.stamp} [{note.importance.label}] typelint: {note.text}\n"

/-- The rows of the notes that are important enough. -/
def noteRows (env : Environment) (threshold : Importance) (notes : List Note) : String :=
  String.join ((notes.filter fun note => threshold.rank ≤ note.importance.rank).map env.noteRow)

/-- An error as a row on the error stream. -/
def errorRow (env : Environment) (text : String) : String :=
  let tag := env.palette.paint .red "Error:"
  s!"{tag} {text}\n"

end Environment

/-- Why the program ends without an exit code of its own: no importance was given from which notes
are shown, or the lint command crashed. -/
inductive Crash where
  | missingThreshold
  | lint (e : LintFailure)
deriving DecidableEq

/-- The wording of a crash. -/
def Crash.message : Crash → String
  | .missingThreshold => "attribute name must be string, not 'list'"
  | .lint e => e.message

/-- The end of the program: output with an exit code, or a crash after some output. -/
inductive Ending where
  | output (o : Output)
  | crash (e : Crash) (stdout stderr : String)
deriving DecidableEq

/-- The end of the program after the lint command. A missing input is reported without colour. -/
def lintEnding (env : Environment) (threshold : Importance) : LintEnd → Ending
  | .done exit text notes => .output ⟨exit, text, env.noteRows threshold notes⟩
  | .failed e notes =>
    let rows := env.noteRows threshold notes
    if e.isCrash then .crash (.lint e) "" rows
    else
      match e with
      | .missing _ => .output ⟨1, "", s!"{rows}Error: {e.message}\n"⟩
      | e => .output ⟨1, "", rows ++ env.errorRow e.message⟩

/-- Carry out what a command line asks for. -/
def perform (env : Environment) (threshold : Importance) : Option Request → Ending
  | none => .output ⟨0, mainHelp, ""⟩
  | some (.lint settings) =>
    lintEnding env threshold (lint env.files Registry.reference env.palette settings)
  | some (.rules settings) =>
    let text := if settings.asJson then rulesDocument Registry.reference
      else rulesList env.palette Registry.reference
    .output ⟨0, text, ""⟩

/-- Run the program on the words of its command line. -/
def run (env : Environment) (words : List String) : Ending :=
  match Invocation.read words with
  | .error output => .output output
  | .ok invocation =>
    match invocation.threshold with
    | none => .crash .missingThreshold "" ""
    | some threshold => perform env threshold invocation.request

end TreeLint.Command
