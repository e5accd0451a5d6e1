import TreeLint.Rule.Basic
import TreeLint.Rule.Naming

/-!
# The reference rules

Four rules on type annotations and names. A function declares its return type; a variable is not
annotated as `any`; variables are named in camel case; a variable whose name mentions a type is
not a plain string.
-/

namespace TreeLint.Catalog

/-- A function must declare its return type. -/
def explicitReturnTypeInfo : RuleInfo where
  code := "TL001"
  name := "explicit-return-type"
  category := .types
  message := "A function must declare an explicit return type"
  suggestion := some "annotate the return type, e.g. `function f(): void`"

/-- A variable must not be annotated as `any`. -/
def noExplicitAnyInfo : RuleInfo where
  code := "TL002"
  name := "no-explicit-any"
  category := .types
  message := "Variables with explicit any types are not allowed"
  suggestion := some "use a concrete type or `unknown`"

/-- Variables are named in camel case. -/
def camelCaseNamingInfo : RuleInfo where
  code := "TL003"
  name := "camel-case-naming"
  category := .style
  message := "Variables must be named in camelCase. \x7b\x7d is invalid."

/-- A variable that stands for a type must not be a plain string. -/
def preferEnumInfo : RuleInfo where
  code := "TL004"
  name := "prefer-enum-over-string-for-type-vars"
  category := .types
  message := "Use Enums to represent types, not strings"
  suggestion := some "declare an enum for the possible values of '\x7b\x7d'"

/-- Finds functions without an annotation. -/
def explicitReturnType : Rule where
  info := explicitReturnTypeInfo
  title := "ExplicitReturnType"
  kinds := [.functionDeclaration]
  check vertex :=
    if vertex.node.declared.isNone then Check.report explicitReturnTypeInfo [] else Check.pass

/-- Finds annotated variables whose type is `any`. A variable without an annotation is never
found, whatever its type. -/
def noExplicitAny : Rule where
  info := noExplicitAnyInfo
  title := "NoExplicitAny"
  kinds := [.variableDeclaration]
  check vertex :=
    if vertex.node.declared.isNone then Check.pass
    else Check.withType vertex fun descriptor =>
      if Types.isAny descriptor then Check.report noExplicitAnyInfo [] else Check.pass

/-- Finds variables whose name is not in camel case. -/
def camelCaseNaming : Rule where
  info := camelCaseNamingInfo
  title := "CamelCaseNaming"
  kinds := [.variableDeclaration]
  check vertex :=
    match vertex.node.name with
    | none => Check.pass
    | some name =>
      if Naming.isCamelCase name then Check.pass else Check.report camelCaseNamingInfo [name]

/-- Finds variables whose name mentions a type and whose type is `string`. -/
def preferEnum : Rule where
  info := preferEnumInfo
  title := "PreferEnumOverStringForTypeVars"
  kinds := [.variableDeclaration]
  check vertex :=
    match vertex.node.name with
    | none => Check.pass
    | some name =>
      if Naming.mentionsType name then
        Check.withType vertex fun descriptor =>
          if Types.isString descriptor then Check.report preferEnumInfo [name] else Check.pass
      else Check.pass

/-- The reference rules, in order of evaluation. -/
def rules : List Rule :=
  [explicitReturnType, noExplicitAny, camelCaseNaming, preferEnum]

/-- The description of the reference rule with a given code. -/
def byCode? (code : String) : Option RuleInfo :=
  (rules.map Rule.info).find? (·.code = code)

/-- The description of the reference rule with a given name. -/
def byName? (name : String) : Option RuleInfo :=
  (rules.map Rule.info).find? (·.name = name)

/-- The descriptions of the reference rules of a category. -/
def byCategory (category : Category) : List RuleInfo :=
  (rules.map Rule.info).filter (·.category = category)

end TreeLint.Catalog
