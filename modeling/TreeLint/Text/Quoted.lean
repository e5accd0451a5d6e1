import TreeLint.Text.Ascii
import TreeLint.Text.Printable

/-!
# Quoted text

Names and paths appear in messages between quotes. The quote is an apostrophe unless the text
holds an apostrophe and no double quote. The quote in use and the backslash are escaped, line
feed, carriage return and tab have their letters, and every character that is not printable is
written by its code point in the shortest hexadecimal form that fits.
-/

namespace TreeLint.Text

/-- The quote that surrounds a text. -/
def quoteFor (text : List Char) : Char :=
  if '\'' ∈ text && '"' ∉ text then '"' else '\''

/-- One character as it stands between quotes. -/
def escapeChar (quote c : Char) : List Char :=
  if c == quote || c == '\\' then ['\\', c]
  else if c == '\n' then ['\\', 'n']
  else if c == '\r' then ['\\', 'r']
  else if c == '\t' then ['\\', 't']
  else if isPrintable c then [c]
  else if c.toNat < 0x100 then '\\' :: 'x' :: hexDigits 2 c.toNat
  else if c.toNat < 0x10000 then '\\' :: 'u' :: hexDigits 4 c.toNat
  else '\\' :: 'U' :: hexDigits 8 c.toNat

/-- A text between quotes. -/
def quoted (text : String) : String :=
  let chars := text.toList
  let quote := quoteFor chars
  String.ofList (quote :: chars.flatMap (escapeChar quote) ++ [quote])

end TreeLint.Text
