import TreeLint.Json.Basic
import TreeLint.Text.Ascii
import TreeLint.Text.Decimal

/-!
# Reading JSON

A document holds one value with blanks around it; only space, tab, line feed and carriage return
are blanks. The reader walks over the characters and, when a document is refused, names the fault
and how many characters were still unread there, from which the place is computed. When a key is
written twice the later value counts. A whole number may not have too many digits. The number
literals for infinity and "not a number" are read as numbers that are not whole.

Texts are lists of characters, not of code units, and so cannot hold half of a pair. An escape for a
half whose other half does not stand next to it is therefore read as the replacement character, and
two texts that differ only in such halves are read alike. Which half it was is lost: as JSON it is
written back as the escape of the replacement character, and as plain text that character is
printed, where the half itself could be written back as an escape, and has no encoding at all as
plain text. What is shown here of the texts of a document is meant for documents without such
halves.
-/

namespace TreeLint.Json

/-- What is wrong at the place where a document is refused. -/
inductive Fault where
  | value
  | propertyName
  | colon
  | comma
  | extraData
  | unterminated
  | escape
  | unitEscape
  | control
  | byteOrderMark
deriving DecidableEq

/-- The wording of a fault. -/
def Fault.message : Fault → String
  | .value => "Expecting value"
  | .propertyName => "Expecting property name enclosed in double quotes"
  | .colon => "Expecting ':' delimiter"
  | .comma => "Expecting ',' delimiter"
  | .extraData => "Extra data"
  | .unterminated => "Unterminated string starting at"
  | .escape => "Invalid \\escape"
  | .unitEscape => "Invalid \\uXXXX escape"
  | .control => "Invalid control character at"
  | .byteOrderMark => "Unexpected UTF-8 BOM (decode using utf-8-sig)"

/-- Why reading stops: at a fault, with the number of characters not yet read there, or at a whole
number with more digits than are taken. -/
inductive Refusal where
  | fault (fault : Fault) (unread : Nat)
  | longNumber (digits : Nat)
deriving DecidableEq

/-- A fault and its place in the document. -/
structure PlacedFault where
  fault : Fault
  line : Nat
  column : Nat
  offset : Nat
deriving DecidableEq

/-- The wording of a fault with its place. -/
def PlacedFault.message (e : PlacedFault) : String :=
  s!"{e.fault.message}: line {e.line} column {e.column} (char {e.offset})"

/-- Why a document cannot be read: a fault, or a whole number with more digits than are taken. -/
inductive ReadError where
  | fault (e : PlacedFault)
  | longNumber (digits : Nat)
deriving DecidableEq

/-- The wording of a whole number with too many digits. -/
def longNumberMessage (digits : Nat) : String :=
  s!"Exceeds the limit ({Text.maxDigits} digits) for integer string conversion: " ++
    s!"value has {digits} digits; use sys.set_int_max_str_digits() to increase the limit"

/-- The place of a refusal: only line feeds start a line here. -/
def Refusal.locate (text : List Char) : Refusal → ReadError
  | .longNumber digits => .longNumber digits
  | .fault what unread =>
    let offset := text.length - unread
    let before := text.take offset
    let sinceBreak := before.reverse.takeWhile (· != '\n')
    .fault ⟨what, before.count '\n' + 1, sinceBreak.length + 1, offset⟩

/-- The blanks of a document. -/
def isGap (c : Char) : Bool :=
  c == ' ' || c == '\t' || c == '\n' || c == '\r'

/-- Skip blanks. -/
def skipGap (text : List Char) : List Char :=
  text.dropWhile isGap

/-- The character that a letter after a backslash stands for. -/
def escapeLetter? (c : Char) : Option Char :=
  if c == '"' || c == '\\' || c == '/' then some c
  else if c == 'b' then some '\x08'
  else if c == 'f' then some '\x0c'
  else if c == 'n' then some '\n'
  else if c == 'r' then some '\r'
  else if c == 't' then some '\t'
  else none

/-- The number written by four hexadecimal digits. -/
def hexUnit? (a b c d : Char) : Option Nat := do
  let a ← Text.hexValue? a
  let b ← Text.hexValue? b
  let c ← Text.hexValue? c
  let d ← Text.hexValue? d
  return ((a * 16 + b) * 16 + c) * 16 + d

/-- Put a code unit before the units that follow it. -/
def consUnit (unit : Nat) : Except Refusal (List Nat × List Char) →
    Except Refusal (List Nat × List Char)
  | .ok (units, rest) => .ok (unit :: units, rest)
  | .error e => .error e

/-- The code units of a text up to its closing quote, and what follows it. The first argument is
all that follows the opening quote. -/
def readUnits (opened : List Char) : List Char → Except Refusal (List Nat × List Char)
  | [] => .error (.fault .unterminated (opened.length + 1))
  | '"' :: rest => .ok ([], rest)
  | ['\\'] => .error (.fault .unterminated (opened.length + 1))
  | '\\' :: 'u' :: a :: b :: c :: d :: e :: rest =>
    match hexUnit? a b c d with
    | some unit => consUnit unit (readUnits opened (e :: rest))
    | none => .error (.fault .unitEscape (rest.length + 6))
  | '\\' :: 'u' :: rest => .error (.fault .unitEscape (rest.length + 1))
  | '\\' :: c :: rest =>
    match escapeLetter? c with
    | some letter => consUnit letter.toNat (readUnits opened rest)
    | none => .error (.fault .escape (rest.length + 2))
  | c :: rest =>
    if c.toNat < 0x20 then .error (.fault .control (rest.length + 1))
    else consUnit c.toNat (readUnits opened rest)

/-- Whether a code unit is the first half of a pair. -/
def isHighUnit (unit : Nat) : Bool :=
  0xd800 ≤ unit && unit < 0xdc00

/-- Whether a code unit is the second half of a pair. -/
def isLowUnit (unit : Nat) : Bool :=
  0xdc00 ≤ unit && unit < 0xe000

/-- The character of a code unit on its own. Half a pair stands for no character, and the
replacement character takes its place. -/
def unitChar (unit : Nat) : Char :=
  if unit.isValidChar then Char.ofNat unit else '\ufffd'

/-- The characters of a list of code units, halves joined into pairs. -/
def joinUnits : List Nat → List Char
  | [] => []
  | [unit] => [unitChar unit]
  | high :: low :: rest =>
    if isHighUnit high && isLowUnit low then
      Char.ofNat (0x10000 + (high - 0xd800) * 0x400 + (low - 0xdc00)) :: joinUnits rest
    else unitChar high :: joinUnits (low :: rest)

/-- The text after an opening quote. -/
def readText (rest : List Char) : Except Refusal (String × List Char) :=
  match readUnits rest rest with
  | .ok (units, rest) => .ok (String.ofList (joinUnits units), rest)
  | .error e => .error e

/-- The digits before the point: a zero alone, or a run that does not start with zero. -/
def readWhole? : List Char → Option (List Char × List Char)
  | [] => none
  | c :: rest =>
    if c == '0' then some (['0'], rest)
    else if Text.isDigit c then
      some (c :: rest.takeWhile Text.isDigit, rest.dropWhile Text.isDigit)
    else none

/-- The fraction, if there is one. -/
def readFraction : List Char → List Char × List Char
  | '.' :: rest =>
    let digits := rest.takeWhile Text.isDigit
    if digits.isEmpty then ([], '.' :: rest)
    else ('.' :: digits, rest.dropWhile Text.isDigit)
  | rest => ([], rest)

/-- The exponent, if there is one. -/
def readExponent (text : List Char) : List Char × List Char :=
  match text with
  | mark :: rest =>
    if mark == 'e' || mark == 'E' then
      let (sign, body) := match rest with
        | '+' :: body => (['+'], body)
        | '-' :: body => (['-'], body)
        | body => ([], body)
      let digits := body.takeWhile Text.isDigit
      if digits.isEmpty then ([], text)
      else (mark :: sign ++ digits, body.dropWhile Text.isDigit)
    else ([], text)
  | [] => ([], [])

/-- The number of a run of ASCII digits. -/
def digitsValue (digits : List Char) : Nat :=
  digits.foldl (fun total c => 10 * total + (c.toNat - '0'.toNat)) 0

/-- A number without its sign. It is no number if no digits are there. -/
def readMagnitude (negative : Bool) (text : List Char) : Except Refusal (Json × List Char) :=
  match readWhole? text with
  | none => .error (.fault .value ((if negative then 1 else 0) + text.length))
  | some (whole, rest) =>
    let (fraction, rest) := readFraction rest
    let (exponent, rest) := readExponent rest
    if fraction.isEmpty && exponent.isEmpty then
      if Text.maxDigits < whole.length then .error (.longNumber whole.length)
      else
        let n : Int := digitsValue whole
        .ok (.int (if negative then -n else n), rest)
    else
      let sign := if negative then ['-'] else []
      .ok (.real (String.ofList (sign ++ whole ++ fraction ++ exponent)), rest)

/-- A number or one of the literals that stand for a number. -/
def readNumber : List Char → Except Refusal (Json × List Char)
  | 'N' :: 'a' :: 'N' :: rest => .ok (.real "NaN", rest)
  | 'I' :: 'n' :: 'f' :: 'i' :: 'n' :: 'i' :: 't' :: 'y' :: rest => .ok (.real "Infinity", rest)
  | '-' :: 'I' :: 'n' :: 'f' :: 'i' :: 'n' :: 'i' :: 't' :: 'y' :: rest =>
    .ok (.real "-Infinity", rest)
  | '-' :: rest => readMagnitude true rest
  | text => readMagnitude false text

/-- A value that holds no other value: a literal name or a number. -/
def readScalar (text : List Char) : Except Refusal (Json × List Char) :=
  match text with
  | 'n' :: 'u' :: 'l' :: 'l' :: rest => .ok (.null, rest)
  | 't' :: 'r' :: 'u' :: 'e' :: rest => .ok (.bool true, rest)
  | 'f' :: 'a' :: 'l' :: 's' :: 'e' :: rest => .ok (.bool false, rest)
  | text => readNumber text

mutual

/-- A value at the front of the text, and what follows it. The first argument bounds the number of
steps. -/
def readValue : Nat → List Char → Except Refusal (Json × List Char)
  | 0, text => .error (.fault .value text.length)
  | fuel + 1, text =>
    match text with
    | '"' :: rest =>
      match readText rest with
      | .ok (s, rest) => .ok (.str s, rest)
      | .error e => .error e
    | '[' :: rest =>
      match skipGap rest with
      | ']' :: rest => .ok (.arr [], rest)
      | rest =>
        match readItems fuel rest with
        | .ok (items, rest) => .ok (.arr items, rest)
        | .error e => .error e
    | '{' :: rest =>
      match skipGap rest with
      | '}' :: rest => .ok (.obj [], rest)
      | rest =>
        match readFields fuel [] rest with
        | .ok (fields, rest) => .ok (.obj fields, rest)
        | .error e => .error e
    | text => readScalar text

/-- The items of a list from the next one on, up to and with the closing bracket. -/
def readItems : Nat → List Char → Except Refusal (List Json × List Char)
  | 0, text => .error (.fault .value text.length)
  | fuel + 1, text =>
    match readValue fuel text with
    | .error e => .error e
    | .ok (item, rest) =>
      match skipGap rest with
      | ']' :: rest => .ok ([item], rest)
      | ',' :: rest =>
        match readItems fuel (skipGap rest) with
        | .ok (items, rest) => .ok (item :: items, rest)
        | .error e => .error e
      | rest => .error (.fault .comma rest.length)

/-- The fields of an object from the next one on, added to those read before, up to and with the
closing brace. -/
def readFields : Nat → List (String × Json) → List Char →
    Except Refusal (List (String × Json) × List Char)
  | 0, _, text => .error (.fault .propertyName text.length)
  | fuel + 1, fields, text =>
    match text with
    | '"' :: rest =>
      match readText rest with
      | .error e => .error e
      | .ok (key, rest) =>
        match skipGap rest with
        | ':' :: rest =>
          match readValue fuel (skipGap rest) with
          | .error e => .error e
          | .ok (value, rest) =>
            let fields := Table.set fields key value
            match skipGap rest with
            | '}' :: rest => .ok (fields, rest)
            | ',' :: rest => readFields fuel fields (skipGap rest)
            | rest => .error (.fault .comma rest.length)
        | rest => .error (.fault .colon rest.length)
    | text => .error (.fault .propertyName text.length)

end

/-- A whole document. Two steps for each character are enough. -/
def readDocument (text : List Char) : Except Refusal Json :=
  match text with
  | '\ufeff' :: _ => .error (.fault .byteOrderMark text.length)
  | text =>
    match readValue (2 * text.length + 2) (skipGap text) with
    | .error e => .error e
    | .ok (json, rest) =>
      match skipGap rest with
      | [] => .ok json
      | rest => .error (.fault .extraData rest.length)

/-- Read a document, naming the place at which it is refused. -/
def read (text : String) : Except ReadError Json :=
  (readDocument text.toList).mapError (·.locate text.toList)

end TreeLint.Json
