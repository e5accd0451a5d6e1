import Std.Time.Format
import TreeLint.Command.Program

/-!
# The executable

Reads the input files that the command line names, runs the program, and writes its output.
-/

namespace TreeLint

/-- The number and the reason of an error of the system. -/
def systemError : IO.Error → Nat × String
  | .alreadyExists _ code reason | .otherError code reason | .resourceBusy code reason
  | .resourceVanished code reason | .unsupportedOperation code reason
  | .hardwareFault code reason | .unsatisfiedConstraints code reason
  | .illegalOperation code reason | .protocolError code reason | .timeExpired code reason
  | .interrupted _ code reason | .noFileOrDirectory _ code reason
  | .invalidArgument _ code reason | .permissionDenied _ code reason
  | .resourceExhausted _ code reason | .inappropriateType _ code reason
  | .noSuchThing _ code reason => (code.toNat, reason)
  | .unexpectedEof => (5, "Input/output error")
  | .userError reason => (5, reason)

/-- The fault that an error of the system stands for. -/
def FileFault.ofSystem (code : Nat) (reason : String) : FileFault :=
  match code with
  | 2 => .notFound
  | 20 => .notDirectory
  | 36 => .nameTooLong
  | _ => .system code reason

/-- What stands at a path on disk. A path that cannot be opened, and still leads somewhere, leads to
something that is closed. -/
def readEntry (path : Path) : IO (Except FileFault FileEntry) := do
  try
    let handle ← IO.FS.Handle.mk path.display .read
    return .ok (.file (← handle.readBinToEnd).toList)
  catch error =>
    let (code, reason) := systemError error
    if code = 21 then return .ok .directory
    try
      let _ ← IO.FS.realPath path.display
      return .ok (.closed code reason)
    catch _ => return .error (.ofSystem code reason)

/-- The files that a command line names, as they stand on disk. -/
def readInputs (words : List String) : IO FileSystem := do
  let inputs := match Command.Invocation.read words with
    | .ok { request := some (.lint settings), .. } => settings.inputs
    | _ => []
  let rows ← inputs.mapM fun path => return (path, ← readEntry path)
  return ⟨fun path => (Table.get? rows path).getD (.error .notFound)⟩

/-- Write to both output streams. -/
def writeOutput (stdout stderr : String) : IO Unit := do
  (← IO.getStderr).putStr stderr
  (← IO.getStdout).putStr stdout

end TreeLint

open TreeLint in
/-- Run the program on the command line. -/
def main (words : List String) : IO UInt32 := do
  let now ← Std.Time.PlainDateTime.now
  let stdout ← IO.getStdout
  let env : Command.Environment := {
    files := ← readInputs words
    isTerminal := ← stdout.isTty
    noColor := ← IO.getEnv "NO_COLOR"
    stamp := now.format "uuuu-MM-dd HH:mm:ss,SSS" }
  match Command.run env words with
  | .output o =>
    writeOutput o.stdout o.stderr
    return o.exit.toUInt32
  | .crash e out err =>
    writeOutput out (err ++ e.message ++ "\n")
    return 1
