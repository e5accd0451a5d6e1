import Mathlib.Data.List.Infix
import TreeLint.Proofs.Lint.Reference
import TreeLint.Proofs.Rule.Catalog
import TreeLint.Proofs.Text.Blank
import TreeLint.Proofs.Tree.Decoding

/-!
# Judgements on node objects

What the reference rules say about a node object is told by the fields of that object alone: its
kind, its annotation, its name, the type found by the front end and its start. A node that mirrors
the object is judged in the same way: its number leads to the type that the object holds, and a
node without such a type is answered by its own annotation.
-/

namespace TreeLint.Document

/-- The start that an object holds. -/
def startIn (fields : Fields) : Int :=
  (int? fields "pos").getD 0

/-- The type of an object: the one found by the front end, else the annotation with normalised
white space, else `any`. An annotation that is all white space gives no type. -/
def descriptor? (fields : Fields) : Option String :=
  match text? fields "resolvedType", text? fields "type" with
  | some resolved, _ => some resolved
  | none, none => some "any"
  | none, some written =>
    if written.toList.all Text.isBlank then none else some (Types.normalize written)

/-- An object as messages show it: kind, name if there is one, and start. -/
def display (fields : Fields) : String :=
  match text? fields "name" with
  | some name => s!"<{(kindIn fields).label} {Text.quoted name} @{startIn fields}>"
  | none => s!"<{(kindIn fields).label} @{startIn fields}>"

/-- The failure of a check that asks for the type of an object that has none. -/
def blankFault (fields : Fields) : Fault where
  sort := "TypeResolutionError"
  text := s!"empty type annotation on {display fields}"

/-- A function is found when it has no annotation. -/
def returnTypeVerdict (fields : Fields) : Verdict :=
  match text? fields "type" with
  | none => .ok (some ⟨"A function must declare an explicit return type",
      some "annotate the return type, e.g. `function f(): void`"⟩)
  | some _ => .ok none

/-- An annotated variable is found when its type is `any`. -/
def anyVerdict (fields : Fields) : Verdict :=
  match text? fields "type", descriptor? fields with
  | none, _ => .ok none
  | some _, none => .error (blankFault fields)
  | some _, some descriptor =>
    if Types.normalize descriptor = "any" then
      .ok (some ⟨"Variables with explicit any types are not allowed",
        some "use a concrete type or `unknown`"⟩)
    else .ok none

/-- A variable is found when its name is not in camel case. -/
def namingVerdict (fields : Fields) : Verdict :=
  match text? fields "name" with
  | none => .ok none
  | some name =>
    if Naming.isCamelCase name then .ok none
    else .ok (some ⟨"Variables must be named in camelCase. " ++ name ++ " is invalid.", none⟩)

/-- A variable is found when its name contains `type` and its type is `string`, both in any letter
case. -/
def enumVerdict (fields : Fields) : Verdict :=
  match text? fields "name" with
  | none => .ok none
  | some name =>
    if "type".toList <:+: Text.lowerCase name.toList then
      match descriptor? fields with
      | none => .error (blankFault fields)
      | some descriptor =>
        if Text.lowerCase (Types.normalize descriptor).toList = "string".toList then
          .ok (some ⟨"Use Enums to represent types, not strings",
            some ("declare an enum for the possible values of '" ++ name ++ "'")⟩)
        else .ok none
    else .ok none

/-- What the reference rules say about an object. -/
def judgements (fields : Fields) : List Judgement :=
  match kindIn fields with
  | .functionDeclaration =>
    [⟨.functionDeclaration, startIn fields, Catalog.explicitReturnTypeInfo,
      returnTypeVerdict fields⟩]
  | .variableDeclaration =>
    [⟨.variableDeclaration, startIn fields, Catalog.noExplicitAnyInfo, anyVerdict fields⟩,
     ⟨.variableDeclaration, startIn fields, Catalog.camelCaseNamingInfo, namingVerdict fields⟩,
     ⟨.variableDeclaration, startIn fields, Catalog.preferEnumInfo, enumVerdict fields⟩]
  | _ => []

section Object

variable {fields : Fields} {node : Node} {vertex : Vertex} {types : Table Int String}

/-- A node starts where its object says. -/
theorem Describes.start_eq (h : Describes fields node) : node.start = startIn fields := by
  rw [startIn, ← h.start, Option.getD_some]

/-- A node is shown as its object is. -/
theorem Describes.display_eq (h : Describes fields node) : node.display = display fields := by
  have hname := h.name
  cases htext : text? fields "name" with
  | none =>
    rw [htext] at hname
    simp only [Node.display, display, hname, htext, h.kind, h.start_eq]
  | some name =>
    rw [htext] at hname
    simp only [Node.display, display, hname, htext, h.kind, h.start_eq]

/-- A blank annotation fails a check in the words of the object. -/
theorem Describes.ofResolve_blankType (h : Describes fields node) :
    Fault.ofResolve (.blankType node) = blankFault fields := by
  change (⟨_, s!"empty type annotation on {node.display}"⟩ : Fault) = _
  rw [h.display_eq]
  rfl

/-- The resolver of a document answers with the type of the object that the node at a vertex
mirrors. -/
theorem Mirrors.recorded_eq (h : Mirrors types fields vertex.node) :
    Types.Resolver.recorded types.get? (some .declared) vertex =
      match descriptor? fields with
      | some descriptor => .ok descriptor
      | none => .error (.blankType vertex.node) := by
  unfold Types.Resolver.recorded descriptor?
  rw [h.get?_id]
  cases text? fields "resolvedType" with
  | some resolved => rfl
  | none =>
    change Types.Resolver.declared vertex = _
    unfold Types.Resolver.declared
    rw [h.declared]
    cases text? fields "type" with
    | none => rfl
    | some written =>
      simp only [Types.isEmpty_normalize]
      by_cases hblank : written.toList.all Text.isBlank
      · rw [if_pos hblank, if_pos hblank]
      · rw [if_neg hblank, if_neg hblank]

/-- What the rule on return types says about a node is told by its object. -/
theorem Describes.eval_explicitReturnType (h : Describes fields vertex.node)
    (resolve : Types.Resolver) :
    (Catalog.explicitReturnType.check vertex).eval resolve = returnTypeVerdict fields := by
  simp only [Catalog.explicitReturnType, h.declared, returnTypeVerdict]
  cases text? fields "type" <;> rfl

/-- What the rule against `any` says about a node is told by its object. -/
theorem Mirrors.eval_noExplicitAny (h : Mirrors types fields vertex.node) :
    (Catalog.noExplicitAny.check vertex).eval (.recorded types.get? (some .declared)) =
      anyVerdict fields := by
  simp only [Catalog.noExplicitAny, h.declared, anyVerdict]
  cases text? fields "type" with
  | none => rfl
  | some written =>
    simp only [Option.isNone_some, Bool.false_eq_true, if_false, Check.withType, Check.eval,
      h.recorded_eq]
    cases descriptor? fields with
    | none => simp only [Check.eval, h.ofResolve_blankType]
    | some descriptor =>
      simp only [Types.isAny, Types.Keyword.descriptor, beq_iff_eq]
      by_cases hany : Types.normalize descriptor = "any"
      · rw [if_pos hany, if_pos hany]
        rfl
      · rw [if_neg hany, if_neg hany]
        rfl

/-- What the rule on names says about a node is told by its object. -/
theorem Describes.eval_camelCaseNaming (h : Describes fields vertex.node)
    (resolve : Types.Resolver) :
    (Catalog.camelCaseNaming.check vertex).eval resolve = namingVerdict fields := by
  simp only [Catalog.camelCaseNaming, h.name, namingVerdict]
  cases text? fields "name" with
  | none => rfl
  | some name =>
    by_cases hcamel : Naming.isCamelCase name
    · simp only [hcamel, if_true]
      rfl
    · simp only [hcamel, Check.report, Catalog.finding_camelCaseNamingInfo]
      rfl

/-- What the rule on names that mention a type says about a node is told by its object. -/
theorem Mirrors.eval_preferEnum (h : Mirrors types fields vertex.node) :
    (Catalog.preferEnum.check vertex).eval (.recorded types.get? (some .declared)) =
      enumVerdict fields := by
  simp only [Catalog.preferEnum, h.name, enumVerdict]
  cases text? fields "name" with
  | none => rfl
  | some name =>
    simp only [Naming.mentionsType, Naming.hasType_iff]
    by_cases htype : "type".toList <:+: Text.lowerCase name.toList
    · simp only [htype, if_true, Check.withType, Check.eval, h.recorded_eq]
      cases descriptor? fields with
      | none => simp only [Check.eval, h.ofResolve_blankType]
      | some descriptor =>
        simp only [Types.isString, Types.Keyword.descriptor, beq_iff_eq, Types.normalize,
          String.toList_ofList, Check.report, Catalog.finding_preferEnumInfo]
        by_cases hstring : Text.lowerCase (Text.normalize descriptor.toList) = "string".toList
        · rw [if_pos hstring, if_pos hstring]
          rfl
        · rw [if_neg hstring, if_neg hstring]
          rfl
    · simp only [htype, if_false]
      rfl

/-- No reference rule judges an object that is neither a function nor a variable. -/
theorem judgements_eq_nil (hfunction : kindIn fields ≠ .functionDeclaration)
    (hvariable : kindIn fields ≠ .variableDeclaration) : judgements fields = [] := by
  unfold judgements
  split
  · next heq => exact absurd heq hfunction
  · next heq => exact absurd heq hvariable
  · rfl

/-- What the reference rules say about a node is told by its object. -/
theorem Mirrors.all_eq_judgements (h : Mirrors types fields vertex.node) :
    Judgement.all (.recorded types.get? (some .declared)) Catalog.rules [vertex] =
      judgements fields := by
  rw [Judgement.all, Inspection.all, List.flatMap_singleton, Catalog.filter_inspects]
  split
  · next hfunction =>
    simp only [judgements, ← h.kind, hfunction, List.map_cons, List.map_nil, Inspection.judge,
      h.start_eq, h.eval_explicitReturnType]
    rfl
  · next hvariable =>
    simp only [judgements, ← h.kind, hvariable, List.map_cons, List.map_nil, Inspection.judge,
      h.start_eq, h.eval_noExplicitAny, h.eval_camelCaseNaming, h.eval_preferEnum]
    rfl
  · next hfunction hvariable =>
    rw [h.kind] at hfunction hvariable
    exact (judgements_eq_nil hfunction hvariable).symm

end Object

/-- What the reference rules say about nodes is told by their objects, one after the other. -/
theorem all_eq_flatMap_judgements {types : Table Int String} {objects : List Fields}
    {vertices : List Vertex}
    (h : List.Forall₂ (Mirrors types) objects (vertices.map Vertex.node)) :
    Judgement.all (.recorded types.get? (some .declared)) Catalog.rules vertices =
      objects.flatMap judgements := by
  rw [List.forall₂_map_right_iff] at h
  induction h with
  | nil => rfl
  | cons hobject _ ih =>
    rw [Judgement.all_cons, hobject.all_eq_judgements, ih, List.flatMap_cons]

/-- The judgements on an object stand at its start. -/
theorem start_of_mem_judgements {fields : Fields} {judgement : Judgement}
    (h : judgement ∈ judgements fields) : judgement.start = startIn fields := by
  unfold judgements at h
  split at h
  · rw [List.mem_singleton.mp h]
  · simp only [List.mem_cons, List.not_mem_nil, or_false] at h
    rcases h with rfl | rfl | rfl <;> rfl
  · cases h

end TreeLint.Document
