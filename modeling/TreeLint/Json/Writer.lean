import TreeLint.Json.Basic
import TreeLint.Text.Ascii
import TreeLint.Text.Copies
import TreeLint.Text.Decimal

/-!
# Writing JSON

A value is written in printable ASCII: a character from U+007F on becomes one or two escapes of four
hexadecimal digits, and a control character its letter or such an escape. On one line items are
divided by a comma and a space. In the indented layout every item stands on a line of its own, and
empty lists and objects stay closed up. A document with a whole number of too many digits is
refused as a whole.
-/

namespace TreeLint.Json

/-- How the items of lists and objects are laid out. -/
inductive Layout where
  | oneLine
  | indented (width : Nat)
deriving DecidableEq

/-- The layout for an optional indentation; a negative one counts as none at all. -/
def Layout.ofIndent : Option Int → Except Text.CopyError Layout
  | none => .ok .oneLine
  | some width => do
    Text.checkCount width
    return .indented width.toNat

/-- The break before an item, or before a closing bracket, at the given depth. -/
def Layout.lineBreak : Layout → Nat → List Char
  | .oneLine, _ => []
  | .indented width, depth => '\n' :: List.replicate (width * depth) ' '

/-- What divides two items at the given depth. -/
def Layout.separator : Layout → Nat → List Char
  | .oneLine, _ => [',', ' ']
  | .indented width, depth => ',' :: Layout.lineBreak (.indented width) depth

/-- One code unit as an escape. -/
def escapeUnit (unit : Nat) : List Char :=
  '\\' :: 'u' :: Text.hexDigits 4 unit

/-- One character as it stands in a written text. -/
def escapeChar (c : Char) : List Char :=
  if c == '"' then ['\\', '"']
  else if c == '\\' then ['\\', '\\']
  else if c == '\n' then ['\\', 'n']
  else if c == '\r' then ['\\', 'r']
  else if c == '\t' then ['\\', 't']
  else if c == '\x08' then ['\\', 'b']
  else if c == '\x0c' then ['\\', 'f']
  else if 0x20 ≤ c.toNat && c.toNat < 0x7f then [c]
  else if c.toNat < 0x10000 then escapeUnit c.toNat
  else
    let n := c.toNat - 0x10000
    escapeUnit (0xd800 + n / 0x400) ++ escapeUnit (0xdc00 + n % 0x400)

/-- A text between double quotes. -/
def writeText (s : String) : List Char :=
  '"' :: s.toList.flatMap escapeChar ++ ['"']

/-- A whole number in decimal digits. -/
def writeInt : Int → List Char
  | .ofNat n => Nat.toDigits 10 n
  | .negSucc n => '-' :: Nat.toDigits 10 (n + 1)

mutual

/-- A value at the given depth. -/
def writeAt (layout : Layout) (depth : Nat) : Json → List Char
  | .null => ['n', 'u', 'l', 'l']
  | .bool true => ['t', 'r', 'u', 'e']
  | .bool false => ['f', 'a', 'l', 's', 'e']
  | .int n => writeInt n
  | .real spelling => spelling.toList
  | .str s => writeText s
  | .arr [] => ['[', ']']
  | .arr (item :: items) =>
    '[' :: layout.lineBreak (depth + 1) ++ writeAt layout (depth + 1) item ++
      writeItems layout (depth + 1) items ++ layout.lineBreak depth ++ [']']
  | .obj [] => ['{', '}']
  | .obj ((key, value) :: fields) =>
    '{' :: layout.lineBreak (depth + 1) ++ writeText key ++ [':', ' '] ++
      writeAt layout (depth + 1) value ++ writeFields layout (depth + 1) fields ++
      layout.lineBreak depth ++ ['}']

/-- The items of a list after the first. -/
def writeItems (layout : Layout) (depth : Nat) : List Json → List Char
  | [] => []
  | item :: items =>
    layout.separator depth ++ writeAt layout depth item ++ writeItems layout depth items

/-- The fields of an object after the first. -/
def writeFields (layout : Layout) (depth : Nat) : List (String × Json) → List Char
  | [] => []
  | (key, value) :: fields =>
    layout.separator depth ++ writeText key ++ [':', ' '] ++ writeAt layout depth value ++
      writeFields layout depth fields

end

/-- A value as a document. -/
def write (layout : Layout) (json : Json) : String :=
  String.ofList (writeAt layout 0 json)

/-- The smallest number with too many digits. -/
def numberBound : Nat :=
  Nat.pow 10 Text.maxDigits

mutual

/-- Whether all whole numbers of a value can be written. -/
def fits : Json → Bool
  | .int n => n.natAbs < numberBound
  | .arr items => fitsItems items
  | .obj fields => fitsFields fields
  | .null | .bool _ | .real _ | .str _ => true

/-- Whether all whole numbers in a list of values can be written. -/
def fitsItems : List Json → Bool
  | [] => true
  | item :: items => fits item && fitsItems items

/-- Whether all whole numbers in the fields of an object can be written. -/
def fitsFields : List (String × Json) → Bool
  | [] => true
  | (_, value) :: fields => fits value && fitsFields fields

end

/-- Why a value is not written: a whole number in it has too many digits. -/
inductive WriteError where
  | longNumber
deriving DecidableEq

/-- The wording of a value that is not written. -/
def WriteError.message : WriteError → String
  | .longNumber =>
    s!"Exceeds the limit ({Text.maxDigits} digits) for integer string conversion; " ++
      "use sys.set_int_max_str_digits() to increase the limit"

/-- A value as a document, if its whole numbers can be written. -/
def encode (layout : Layout) (json : Json) : Except WriteError String :=
  if json.fits then .ok (json.write layout) else .error .longNumber

end TreeLint.Json
