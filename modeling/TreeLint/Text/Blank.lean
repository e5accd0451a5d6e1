/-!
# White space

White space is one fixed set of characters, ASCII and beyond. Texts are handled as lists of
characters; a text is trimmed at both ends, or normalised by writing its words with single spaces
between them.
-/

namespace TreeLint.Text

/-- White space: the tab to carriage return block, the four separators below the space, the space,
the next-line and no-break characters, and the spaces and separators of the general planes. -/
def isBlank (c : Char) : Bool :=
  let n := c.toNat
  (0x09 ≤ n && n ≤ 0x0d) || (0x1c ≤ n && n ≤ 0x20) || n == 0x85 || n == 0xa0 || n == 0x1680 ||
    (0x2000 ≤ n && n ≤ 0x200a) || n == 0x2028 || n == 0x2029 || n == 0x202f || n == 0x205f ||
    n == 0x3000

/-- Drop white space at both ends. -/
def trim (text : List Char) : List Char :=
  ((text.dropWhile isBlank).reverse.dropWhile isBlank).reverse

/-- Replace each run of white space by one space; the flag tells that a run is already open. -/
def squeezeFrom : Bool → List Char → List Char
  | _, [] => []
  | inRun, c :: rest =>
    if isBlank c then
      if inRun then squeezeFrom true rest else ' ' :: squeezeFrom true rest
    else c :: squeezeFrom false rest

/-- Replace each run of white space by one space. -/
def squeeze (text : List Char) : List Char :=
  squeezeFrom false text

/-- Squeeze the runs of white space and drop those at the ends. -/
def normalize (text : List Char) : List Char :=
  trim (squeeze text)

end TreeLint.Text
