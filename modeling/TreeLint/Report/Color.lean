/-!
# Colours on a terminal

Colours are switched on by short sequences of characters before a text, and off by another one
after it. Where colours are not wanted, all these sequences are empty.
-/

namespace TreeLint

/-- The colours and styles in use. -/
inductive Color where
  | bold
  | gray
  | red
  | green
  | yellow
  | blue
  | cyan
deriving DecidableEq

/-- The sequence with a given number. -/
def colorSequence (number : String) : String :=
  s!"\x1b[{number}m"

/-- The sequence that switches a colour on. -/
def Color.sequence : Color → String
  | .bold => colorSequence "1"
  | .gray => colorSequence "90"
  | .red => colorSequence "91"
  | .green => colorSequence "92"
  | .yellow => colorSequence "93"
  | .blue => colorSequence "94"
  | .cyan => colorSequence "96"

/-- Whether output is coloured. -/
structure Palette where
  colored : Bool
deriving DecidableEq

namespace Palette

/-- Switch a colour on, if output is coloured. -/
def on (palette : Palette) (color : Color) : String :=
  if palette.colored then color.sequence else ""

/-- Switch all colours off again, if output is coloured. -/
def off (palette : Palette) : String :=
  if palette.colored then colorSequence "0" else ""

/-- A text in a colour, if output is coloured. -/
def paint (palette : Palette) (color : Color) (text : String) : String :=
  s!"{palette.on color}{text}{palette.off}"

end Palette

end TreeLint
