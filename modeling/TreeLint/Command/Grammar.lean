import TreeLint.Text.Blank
import TreeLint.Text.Decimal
import TreeLint.Text.Quoted

/-!
# Option grammars

A command line is a list of words. Words that begin with a hyphen are options, all others are
operands; after a word of two hyphens every word is an operand. A long option may be shortened as
long as one option is meant, and can carry its value after an equals sign; a short option can
carry its value directly or after an equals sign, and short options without values can share one
hyphen. A value of two hyphens counts as no value. Words are taken from left to right, and the
options of a word have their effects once the whole word is understood. All words are sorted before
the first one takes effect, so that an ambiguous option is found first.
-/

namespace TreeLint.Command

/-- The end of a program: its exit code and what it has written. -/
structure Output where
  exit : Nat
  stdout : String
  stderr : String
deriving DecidableEq

/-- Why an argument is not taken: it is refused with a reason, or ends the program. -/
inductive Halt where
  | refused (reason : String)
  | ended (output : Output)
deriving DecidableEq

/-- What an option does: end the program, change the settings, or take a value and change them.
An option that takes a value can be written so that it has none. -/
inductive Effect (σ : Type) where
  | finish (output : Output)
  | flag (set : σ → σ)
  | value (set : Option String → σ → Except String σ)

/-- An option with all its names. -/
structure OptionSpec (σ : Type) where
  names : List String
  effect : Effect σ

namespace OptionSpec

variable {σ : Type}

/-- Whether an option takes a value. -/
def takesValue (spec : OptionSpec σ) : Bool :=
  match spec.effect with
  | .value _ => true
  | _ => false

/-- A reason that concerns an option. -/
def complain (spec : OptionSpec σ) (reason : String) : Halt :=
  let names := "/".intercalate spec.names
  .refused s!"argument {names}: {reason}"

/-- Let an option take effect. -/
def apply (spec : OptionSpec σ) (value : Option String) (settings : σ) : Except Halt σ :=
  match spec.effect with
  | .finish output => .error (.ended output)
  | .flag set => .ok (set settings)
  | .value set => (set value settings).mapError spec.complain

end OptionSpec

/-- The operands of a command: one run of words, or the first operand and everything after it. -/
structure Operands (σ : Type) where
  name : String
  required : Bool
  takesRest : Bool
  take : List String → σ → Except Halt σ

/-- The options and operands of a command, and its texts. -/
structure Grammar (σ : Type) where
  program : String
  usage : String
  options : List (OptionSpec σ)
  operands : Option (Operands σ)

/-- An option as a word means it, by one of its names and perhaps with a text attached. -/
structure OptionUse (σ : Type) where
  spec : OptionSpec σ
  name : String
  attached : Option (List Char)

/-- What a word is. -/
inductive WordSort (σ : Type) where
  | operand
  | separator
  | option (use : OptionUse σ)
  | unknownOption

namespace Grammar

variable {σ : Type}

/-- The end of a program that was called in a wrong way. -/
def misuse (grammar : Grammar σ) (reason : String) : Output :=
  ⟨2, "", s!"{grammar.usage}{grammar.program}: error: {reason}\n"⟩

/-- The end of the program that a halt stands for. -/
def output (grammar : Grammar σ) : Halt → Output
  | .refused reason => grammar.misuse reason
  | .ended output => output

/-- The names of all options, each with its option. -/
def named (grammar : Grammar σ) : List (String × OptionSpec σ) :=
  grammar.options.flatMap fun spec => spec.names.map fun name => (name, spec)

/-- The option with a given name. -/
def find? (grammar : Grammar σ) (name : String) : Option (OptionSpec σ) :=
  (grammar.named.find? (·.1 = name)).map (·.2)

/-- A word before and after its first equals sign, if it has one. -/
def splitEquals (word : List Char) : List Char × Option (List Char) :=
  (word.takeWhile (· != '='),
    match word.dropWhile (· != '=') with
    | [] => none
    | _ :: value => some value)

/-- The options that a shortened word can mean. -/
def candidates (grammar : Grammar σ) (word : List Char) : List (OptionUse σ) :=
  match word with
  | '-' :: '-' :: _ =>
    let (start, value) := splitEquals word
    (grammar.named.filter fun row => start.isPrefixOf row.1.toList).map fun row =>
      ⟨row.2, row.1, value⟩
  | _ =>
    grammar.named.filterMap fun row =>
      if row.1.toList = word.take 2 then some ⟨row.2, row.1, some (word.drop 2)⟩
      else if word.isPrefixOf row.1.toList then some ⟨row.2, row.1, none⟩
      else none

/-- Whether a word is a negative number; one line feed after it does not count. -/
def isNegative : List Char → Bool
  | '-' :: body =>
    let body := if body.getLast? = some '\n' then body.dropLast else body
    let rest := body.dropWhile Text.isDecimal
    match rest with
    | [] => !body.isEmpty
    | '.' :: digits => !digits.isEmpty && digits.all Text.isDecimal
    | _ => false
  | _ => false

/-- What a word is, if no word of two hyphens stands before it. -/
def sortWord (grammar : Grammar σ) (text : String) : Except Halt (WordSort σ) :=
  let word := text.toList
  if word.head? ≠ some '-' then .ok .operand
  else
    match grammar.find? text with
    | some spec => .ok (.option ⟨spec, text, none⟩)
    | none =>
      if word.length = 1 then .ok .operand
      else
        let (start, value) := splitEquals word
        match value.bind fun _ => grammar.find? (String.ofList start) with
        | some spec => .ok (.option ⟨spec, String.ofList start, value⟩)
        | none =>
          match grammar.candidates word with
          | [use] => .ok (.option use)
          | [] =>
            if isNegative word || word.contains ' ' then .ok .operand else .ok .unknownOption
          | uses =>
            let matched := ", ".intercalate (uses.map OptionUse.name)
            .error (.refused s!"ambiguous option: {text} could match {matched}")

/-- What each word of a command line is. -/
def sortWords (grammar : Grammar σ) : List String → Except Halt (List (String × WordSort σ))
  | [] => .ok []
  | word :: rest =>
    if word = "--" then .ok ((word, .separator) :: rest.map fun word => (word, .operand))
    else do
      let sort ← grammar.sortWord word
      return (word, sort) :: (← grammar.sortWords rest)

/-- The value that a text gives to an option. -/
def valueOf (text : String) : Option String :=
  if text = "--" then none else some text

/-- What one word of options asks for: options with their values, and an option that still needs
the next word as its value. -/
structure Bundle (σ : Type) where
  complete : List (OptionSpec σ × Option String)
  open? : Option (OptionSpec σ)

/-- Put an option without a value before a bundle. -/
def Bundle.cons (spec : OptionSpec σ) (bundle : Bundle σ) : Bundle σ :=
  { bundle with complete := (spec, none) :: bundle.complete }

/-- An option that stands at the end of its word. -/
def Bundle.last (spec : OptionSpec σ) : Bundle σ :=
  if spec.takesValue then ⟨[], some spec⟩ else ⟨[(spec, none)], none⟩

/-- An option with its value attached. -/
def Bundle.withValue (spec : OptionSpec σ) (value : List Char) : Bundle σ :=
  ⟨[(spec, valueOf (String.ofList value))], none⟩

/-- A text that is attached to an option that takes none. -/
def ignored (spec : OptionSpec σ) (attached : List Char) : Halt :=
  spec.complain s!"ignored explicit argument {Text.quoted (String.ofList attached)}"

/-- The bundle of a short option with a text attached: its value, or more short options. -/
def bundleShort (grammar : Grammar σ) (spec : OptionSpec σ) :
    List Char → Except Halt (Bundle σ)
  | [] => .error (ignored spec [])
  | c :: rest =>
    if spec.takesValue then .ok (.withValue spec (c :: rest))
    else
      match grammar.find? (String.ofList ['-', c]) with
      | none => .error (ignored spec (c :: rest))
      | some next =>
        match rest with
        | [] => .ok ((Bundle.last next).cons spec)
        | rest => (grammar.bundleShort next rest).map (·.cons spec)

/-- What one word of options asks for. -/
def bundle (grammar : Grammar σ) (use : OptionUse σ) : Except Halt (Bundle σ) :=
  match use.attached with
  | none => .ok (.last use.spec)
  | some attached =>
    if use.spec.takesValue then .ok (.withValue use.spec attached)
    else if ['-', '-'].isPrefixOf use.name.toList then .error (ignored use.spec attached)
    else grammar.bundleShort use.spec attached

/-- Settings so far, words that nothing has taken, the run of operands that is open, and whether
the operands have been taken. -/
structure Progress (σ : Type) where
  settings : σ
  extras : List String := []
  run : List String := []
  taken : Bool := false

/-- Let options take effect in order. -/
def applyAll (uses : List (OptionSpec σ × Option String)) (settings : σ) : Except Halt σ :=
  uses.foldlM (fun settings use => use.1.apply use.2 settings) settings

/-- Close the open run of operands: they are taken if none were taken before, and left over
otherwise. One separator is not an operand. -/
def closeRun (grammar : Grammar σ) (p : Progress σ) : Except Halt (Progress σ) :=
  if p.run.isEmpty then .ok p
  else
    match grammar.operands with
    | some operands =>
      if p.taken || p.run = ["--"] then
        .ok { p with extras := p.extras ++ p.run, run := [] }
      else do
        let settings ← operands.take (p.run.erase "--") p.settings
        return { p with settings := settings, run := [], taken := true }
    | none => .ok { p with extras := p.extras ++ p.run, run := [] }

/-- Whether an operand or separator begins a rest that is taken as a whole. -/
def beginsRest (grammar : Grammar σ) (p : Progress σ) (sort : WordSort σ)
    (rest : List (String × WordSort σ)) : Option (Operands σ) :=
  grammar.operands.filter fun operands =>
    operands.takesRest && !p.taken &&
      match sort with
      | .operand => true
      | .separator => !rest.isEmpty
      | _ => false

/-- Take the words of a command line from left to right. -/
def takeWords (grammar : Grammar σ) (p : Progress σ) :
    List (String × WordSort σ) → Except Halt (Progress σ)
  | [] => grammar.closeRun p
  | (_, .option use) :: rest => do
    let p ← grammar.closeRun p
    let bundle ← grammar.bundle use
    match bundle.open?, rest with
    | none, rest =>
      let settings ← applyAll bundle.complete p.settings
      grammar.takeWords { p with settings := settings } rest
    | some spec, (value, .operand) :: rest =>
      let settings ← applyAll (bundle.complete ++ [(spec, valueOf value)]) p.settings
      grammar.takeWords { p with settings := settings } rest
    | some spec, _ => .error (spec.complain "expected one argument")
  | (word, .unknownOption) :: rest => do
    let p ← grammar.closeRun p
    grammar.takeWords { p with extras := p.extras ++ [word] } rest
  | (word, sort) :: rest =>
    match grammar.beginsRest p sort rest with
    | some operands => do
      let settings ← operands.take (word :: rest.map Prod.fst) p.settings
      return { p with settings := settings, taken := true }
    | none => grammar.takeWords { p with run := p.run ++ [word] } rest

/-- Read a command line into settings; the words that nothing has taken are given back. -/
def read (grammar : Grammar σ) (settings : σ) (words : List String) :
    Except Output (σ × List String) :=
  let result := do
    let sorted ← grammar.sortWords words
    let p ← grammar.takeWords { settings := settings } sorted
    match grammar.operands with
    | some operands =>
      if operands.required && !p.taken then
        .error (.refused s!"the following arguments are required: {operands.name}")
      else .ok (p.settings, p.extras)
    | none => .ok (p.settings, p.extras)
  result.mapError grammar.output

end Grammar

end TreeLint.Command
