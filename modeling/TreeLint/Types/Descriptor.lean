import TreeLint.Text.Ascii
import TreeLint.Text.Blank

/-!
# Type descriptors

A descriptor is the printable name of a type. Rules never compare descriptors as written: white
space is normalised first, so that a stray blank cannot hide a type from a rule.
-/

namespace TreeLint.Types

/-- A descriptor with its words written with single spaces between them. -/
def normalize (descriptor : String) : String :=
  String.ofList (Text.normalize descriptor.toList)

/-- The keyword types. -/
inductive Keyword where
  | any
  | unknown
  | never
  | void
  | string
  | number
  | boolean
  | bigint
  | symbol
  | object
  | null
  | undefined
deriving DecidableEq

namespace Keyword

/-- All keyword types. -/
def all : List Keyword :=
  [.any, .unknown, .never, .void, .string, .number, .boolean, .bigint, .symbol, .object, .null,
   .undefined]

/-- The descriptor of a keyword type. -/
def descriptor : Keyword → String
  | .any => "any"
  | .unknown => "unknown"
  | .never => "never"
  | .void => "void"
  | .string => "string"
  | .number => "number"
  | .boolean => "boolean"
  | .bigint => "bigint"
  | .symbol => "symbol"
  | .object => "object"
  | .null => "null"
  | .undefined => "undefined"

/-- The keyword type that a descriptor names, letter case included. -/
def ofDescriptor? (descriptor : String) : Option Keyword :=
  all.find? (·.descriptor = normalize descriptor)

end Keyword

/-- Whether a descriptor names the type `any`. -/
def isAny (descriptor : String) : Bool :=
  normalize descriptor == Keyword.any.descriptor

/-- Whether a descriptor names the type `string`, in any letter case. No character outside ASCII
has a letter of this word as its lower-case form. -/
def isString (descriptor : String) : Bool :=
  Text.lowerCase (Text.normalize descriptor.toList) == Keyword.string.descriptor.toList

end TreeLint.Types
