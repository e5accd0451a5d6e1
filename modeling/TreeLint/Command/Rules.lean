import TreeLint.Json.Writer
import TreeLint.Report.Color
import TreeLint.Rule.Registry

/-!
# Listing the rules

The rules are listed for people, grouped by category, or as a JSON document in order of
evaluation.
-/

namespace TreeLint.Command

/-- A rule as data; the kinds it inspects are sorted by name. -/
def ruleJson (rule : Rule) : Json :=
  .obj [("code", .str rule.info.code), ("name", .str rule.info.name),
    ("category", .str rule.info.category.label), ("level", .str rule.info.level.label),
    ("appliesTo", .ofTexts ((rule.kinds.map Kind.label).mergeSort (· ≤ ·))),
    ("message", .str rule.info.message)]

/-- The rules as a document. -/
def rulesDocument (registry : Registry) : String :=
  Json.write (.indented 2) (.arr (registry.rules.map ruleJson)) ++ "\n"

/-- A text with blanks after it up to a width. -/
def padRight (width : Nat) (text : String) : String :=
  text ++ String.ofList (List.replicate (width - text.length) ' ')

/-- A message with a word in the place of its argument. -/
def nameArgument : List Char → List Char
  | [] => []
  | '{' :: '}' :: rest => "<name>".toList ++ nameArgument rest
  | c :: rest => c :: nameArgument rest

/-- The level of a rule as the list shows it. -/
def levelTag (palette : Palette) (level : Level) : String :=
  if level = .warn then palette.paint .yellow "warn" else palette.paint .red "deny"

/-- The rows for one rule. -/
def ruleRows (palette : Palette) (rule : Rule) : List String :=
  let info := rule.info
  [s!"  {info.code} {padRight 40 info.name} [{levelTag palette info.level}]",
   "    " ++ palette.paint .gray (String.ofList (nameArgument info.message.toList))]

/-- The rows for one category; a category without rules is left out. -/
def categoryRows (palette : Palette) (registry : Registry) (category : Category) : List String :=
  match registry.rules.filter (·.info.category = category) with
  | [] => []
  | rules => "" :: palette.paint .cyan category.label.toUpper :: rules.flatMap (ruleRows palette)

/-- The rules as a list for people. -/
def rulesList (palette : Palette) (registry : Registry) : String :=
  let rows := ["", palette.paint .bold "Available Lint Rules",
      String.ofList (List.replicate 60 '=')] ++
    Category.all.flatMap (categoryRows palette registry) ++ [""]
  String.join (rows.map (· ++ "\n"))

end TreeLint.Command
