import TreeLint.Proofs.Rule.Catalog
import TreeLint.Proofs.Text.Words

/-!
# Descriptors in other spacing

Two descriptors have the same normal form exactly if they have the same words, and nothing but the
normal form decides which keyword type a descriptor names. A reference rule looks at the annotation
of a node only to see whether there is one, and at the type of a node only through such a decision.
So it says the same about a node when the annotation, or the type that a resolver gives, is written
with other white space between its words or around them.
-/

namespace TreeLint

namespace Types

/-- Descriptors with the same words, which differ in white space at most. -/
def SameWords (descriptor other : String) : Prop :=
  Text.words descriptor.toList = Text.words other.toList

section Descriptors

variable {descriptor other : String}

/-- Two descriptors have the same normal form exactly if they have the same words. -/
theorem normalize_eq_iff : normalize descriptor = normalize other ↔ SameWords descriptor other := by
  rw [normalize, normalize, String.ofList_inj, Text.normalize_eq_normalize_iff]
  rfl

/-- A normal form is its own normal form. -/
theorem normalize_normalize (descriptor : String) :
    normalize (normalize descriptor) = normalize descriptor := by
  rw [normalize_eq_iff, SameWords, normalize, String.toList_ofList, Text.words_normalize]

/-- Whether a descriptor names `any` depends on its words only. -/
theorem SameWords.isAny_eq (h : SameWords descriptor other) : isAny descriptor = isAny other := by
  rw [isAny, isAny, normalize_eq_iff.mpr h]

/-- Whether a descriptor names `string` depends on its words only. -/
theorem SameWords.isString_eq (h : SameWords descriptor other) :
    isString descriptor = isString other := by
  rw [isString, isString, Text.normalize_eq_normalize_iff.mpr h]

/-- The keyword type that a descriptor names depends on its words only. -/
theorem SameWords.ofDescriptor?_eq (h : SameWords descriptor other) :
    Keyword.ofDescriptor? descriptor = Keyword.ofDescriptor? other := by
  rw [Keyword.ofDescriptor?, Keyword.ofDescriptor?, normalize_eq_iff.mpr h]

end Descriptors

/-- Answers about types that differ in white space at most: descriptors with the same words, or
errors of the same sort with the same wording. -/
inductive SameAnswer : Except ResolveError String → Except ResolveError String → Prop where
  | ok {descriptor other : String} (h : SameWords descriptor other) :
      SameAnswer (.ok descriptor) (.ok other)
  | error {e other : ResolveError} (hsort : e.sort = other.sort)
      (hmessage : e.message = other.message) : SameAnswer (.error e) (.error other)

/-- Two vertices whose nodes are the same but for white space in their annotations. Their graphs may
differ in any way, as of two sources of which one is spaced out. -/
structure SameNode (vertex other : Vertex) : Prop where
  node_eq : other.node = { vertex.node with declared := other.node.declared }
  declared : Option.Rel SameWords vertex.node.declared other.node.declared

/-- Of two annotations that differ in white space at most, both are there or none is. -/
theorem isNone_eq_of_rel {written other : Option String}
    (h : Option.Rel SameWords written other) : other.isNone = written.isNone := by
  cases h <;> rfl

section Resolvers

variable {vertex spaced : Vertex} (hsame : SameNode vertex spaced)

include hsame

/-- Annotations that differ in white space give the same answer: both are blank, or both have the
same normal form. -/
theorem sameAnswer_declared : SameAnswer (Resolver.declared vertex) (Resolver.declared spaced) := by
  obtain ⟨hnode, hdeclared⟩ := hsame
  unfold Resolver.declared
  rw [hnode]
  dsimp only
  generalize spaced.node.declared = other at hdeclared ⊢
  generalize vertex.node = node at hdeclared ⊢
  obtain ⟨kind, start, stop, declared, name, id⟩ := node
  cases hdeclared with
  | none => exact .ok rfl
  | some h =>
    simp only [normalize_eq_iff.mpr h]
    split
    · exact .error rfl rfl
    · exact .ok rfl

/-- So do a recorded type in other spacing and the annotation behind it. -/
theorem sameAnswer_recorded {types others : Int → Option String}
    (htypes : Option.Rel SameWords (types vertex.node.id) (others vertex.node.id)) :
    SameAnswer (Resolver.recorded types (some .declared) vertex)
      (Resolver.recorded others (some .declared) spaced) := by
  have hfallback := sameAnswer_declared hsame
  have hid : spaced.node.id = vertex.node.id := by rw [hsame.node_eq]
  simp only [Resolver.recorded, hid]
  generalize types vertex.node.id = found at htypes ⊢
  generalize others vertex.node.id = respaced at htypes ⊢
  cases htypes with
  | none => exact hfallback
  | some h => exact .ok h

end Resolvers

end Types

namespace Check

variable {resolve other : Types.Resolver}

/-- A report asks for nothing, so that it is the same for all resolvers. -/
theorem eval_report (info : RuleInfo) (args : List String) :
    (report info args).eval resolve = (report info args).eval other := by
  unfold report
  cases info.finding args <;> rfl

/-- Checks that ask for a type end alike if they get the same answer up to white space, and go on
alike with descriptors that have the same words. -/
theorem eval_withType_of_sameAnswer {vertex asked : Vertex} {next more : String → Check}
    (hanswer : Types.SameAnswer (resolve vertex) (other asked))
    (hnext : ∀ descriptor spaced, Types.SameWords descriptor spaced →
      (next descriptor).eval resolve = (more spaced).eval other) :
    (withType vertex next).eval resolve = (withType asked more).eval other := by
  simp only [withType, eval]
  generalize resolve vertex = answer at hanswer ⊢
  generalize other asked = spaced at hanswer ⊢
  cases hanswer with
  | ok h => exact hnext _ _ h
  | error hsort hmessage => simp only [eval, Fault.ofResolve, hsort, hmessage]

end Check

namespace Catalog

/-- A reference rule says the same about a node with its annotation in other spacing, if the answers
about the type of the node are the same up to white space. -/
theorem eval_check_of_sameAnswer {rule : Rule} (hrule : rule ∈ rules) {vertex spaced : Vertex}
    {resolve other : Types.Resolver} (hsame : Types.SameNode vertex spaced)
    (hanswer : Types.SameAnswer (resolve vertex) (other spaced)) :
    (rule.check vertex).eval resolve = (rule.check spaced).eval other := by
  have hnone := Types.isNone_eq_of_rel hsame.declared
  have hname : spaced.node.name = vertex.node.name := by rw [hsame.node_eq]
  simp only [rules, List.mem_cons, List.not_mem_nil, or_false] at hrule
  rcases hrule with rfl | rfl | rfl | rfl
  · simp only [explicitReturnType, hnone]
    split
    · exact Check.eval_report ..
    · rfl
  · simp only [noExplicitAny, hnone]
    split
    · rfl
    · refine Check.eval_withType_of_sameAnswer hanswer fun descriptor spaced h => ?_
      rw [h.isAny_eq]
      split
      · exact Check.eval_report ..
      · rfl
  · -- This rule looks at the name only.
    simp only [camelCaseNaming, hname]
    split
    · rfl
    · split
      · rfl
      · exact Check.eval_report ..
  · simp only [preferEnum, hname]
    split
    · rfl
    · split
      · refine Check.eval_withType_of_sameAnswer hanswer fun descriptor spaced h => ?_
        rw [h.isString_eq]
        split
        · exact Check.eval_report ..
        · rfl
      · rfl

end Catalog

namespace Types

/-- A descriptor has exactly one list of words, and its normal form is these words with single
spaces between them; a normal form is its own. Descriptors have the same normal form exactly if they
have the same words, and then they name the same keyword type. A reference rule says the same about
a node when its annotation is written with other white space, and the type that a resolver gives is
too, whether the type was recorded or is read off the annotation. -/
theorem normal_form_joins_words :
    (∀ descriptor : String,
      Text.HasWords descriptor.toList (Text.words descriptor.toList) ∧
      (∀ found, Text.HasWords descriptor.toList found → found = Text.words descriptor.toList) ∧
      normalize descriptor = String.ofList ([' '].intercalate (Text.words descriptor.toList)) ∧
      normalize (normalize descriptor) = normalize descriptor) ∧
    (∀ descriptor other : String,
      (normalize descriptor = normalize other ↔ SameWords descriptor other) ∧
      (SameWords descriptor other → isAny descriptor = isAny other ∧
        isString descriptor = isString other ∧
        Keyword.ofDescriptor? descriptor = Keyword.ofDescriptor? other)) ∧
    ∀ rule ∈ Catalog.rules, ∀ vertex spaced : Vertex, SameNode vertex spaced →
      (∀ resolve other : Resolver, SameAnswer (resolve vertex) (other spaced) →
        (rule.check vertex).eval resolve = (rule.check spaced).eval other) ∧
      ∀ types others : Int → Option String,
        Option.Rel SameWords (types vertex.node.id) (others vertex.node.id) →
        (rule.check vertex).eval (.recorded types (some .declared)) =
          (rule.check spaced).eval (.recorded others (some .declared)) := by
  refine ⟨fun descriptor => ?_, fun descriptor other => ?_,
    fun rule hrule vertex spaced hsame => ?_⟩
  · have hwords := Text.hasWords_iff.mpr (Eq.refl (Text.words descriptor.toList))
    refine ⟨hwords, fun found hfound => hfound.words_eq.symm, ?_, normalize_normalize descriptor⟩
    rw [normalize, hwords.normalize_eq, Text.unwords]
  · exact ⟨normalize_eq_iff, fun h => ⟨h.isAny_eq, h.isString_eq, h.ofDescriptor?_eq⟩⟩
  · refine ⟨fun resolve other hanswer => ?_, fun types others htypes => ?_⟩
    · exact Catalog.eval_check_of_sameAnswer hrule hsame hanswer
    · exact Catalog.eval_check_of_sameAnswer hrule hsame (sameAnswer_recorded hsame htypes)

/-- A variable with the given annotation, alone in its graph. -/
def annotatedVariable (written : String) : Vertex :=
  let node : Node :=
    { kind := .variableDeclaration, start := 4, declared := some written, name := some "aType" }
  Graph.vertex ⟨1, #v[⟨node, []⟩]⟩ 0

/-- An annotation in which white space of several sorts stands has one word and names `any`, as the
word alone does, and the rule against `any` says the same about variables with either. A type with
several words keeps them in normal form. -/
theorem normal_form_spacedVariable :
    normalize "\u2003any\t\n" = normalize "any" ∧ isAny "\u2003any\t\n" = isAny "any" ∧
    (Catalog.noExplicitAny.check (annotatedVariable "\u2003any\t\n")).eval .declared =
      (Catalog.noExplicitAny.check (annotatedVariable "any")).eval .declared ∧
    Text.HasWords " Map<\u00a0a, \t b>".toList ["Map<".toList, "a,".toList, "b>".toList] ∧
    normalize " Map<\u00a0a, \t b>" = "Map< a, b>" := by
  obtain ⟨hforms, hpairs, hrules⟩ := normal_form_joins_words
  have hwords : SameWords "\u2003any\t\n" "any" := (hpairs _ _).1.mp (by decide)
  have hsame : SameNode (annotatedVariable "\u2003any\t\n") (annotatedVariable "any") :=
    ⟨rfl, .some hwords⟩
  obtain ⟨hfound, _, hnormal, _⟩ := hforms " Map<\u00a0a, \t b>"
  have hthree : Text.words " Map<\u00a0a, \t b>".toList =
      ["Map<".toList, "a,".toList, "b>".toList] := by decide
  rw [hthree] at hfound hnormal
  refine ⟨(hpairs _ _).1.mpr hwords, ((hpairs _ _).2 hwords).1, ?_, hfound, ?_⟩
  · exact (hrules _ (by simp [Catalog.rules]) _ _ hsame).1 _ _ (sameAnswer_declared hsame)
  · rw [hnormal]
    decide

end Types

end TreeLint
