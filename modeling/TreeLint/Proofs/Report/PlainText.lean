import Mathlib.Algebra.GroupWithZero.Nat
import TreeLint.Proofs.Json.Number
import TreeLint.Proofs.Lint.Document
import TreeLint.Proofs.Rule.Naming

/-!
# Rows of plain text

Diagnostics as plain text are joined by line feeds, so that each takes as many rows as its own text
has. The file name apart, a line feed gets into that text only with the message, and of the messages
of the reference rules only the one on names holds a text of the document. No name with a line feed
is in camel case. Over a decoded document there is one row for each diagnostic and one more for each
line feed in the name of a variable, unless the rule on names is not enforced.
-/

namespace TreeLint

namespace Text

/-- The rows of a text: its parts between line feeds. -/
def rows (text : String) : List String :=
  (text.toList.splitOn '\n').map String.ofList

/-- The number of line feeds in a text. -/
def lineFeeds (text : String) : Nat :=
  text.toList.count '\n'

/-- Two texts in a row have the line feeds of both. -/
theorem lineFeeds_append (text rest : String) :
    lineFeeds (text ++ rest) = lineFeeds text + lineFeeds rest := by
  rw [lineFeeds, String.toList_append, List.count_append]
  rfl

/-- A text has no line feeds exactly if none of its characters is one. -/
theorem lineFeeds_eq_zero_iff {text : String} : lineFeeds text = 0 ↔ '\n' ∉ text.toList :=
  List.count_eq_zero

/-- A text without line feeds is its only row. -/
theorem rows_of_lineFeeds_eq_zero {text : String} (h : lineFeeds text = 0) :
    rows text = [text] := by
  rw [rows, List.splitOn_eq_singleton (lineFeeds_eq_zero_iff.mp h), List.map_singleton,
    String.ofList_toList]

/-- A text has one row more than it has line feeds. -/
theorem length_rows (text : String) : (rows text).length = lineFeeds text + 1 := by
  rw [rows, List.length_map, lineFeeds]
  induction text.toList with
  | nil => rfl
  | cons c rest ih =>
    rw [List.splitOn_cons_eq_if_modifyHead, List.count_cons]
    by_cases hc : (c == '\n') = true
    · rw [if_pos hc, if_pos hc, List.length_cons, ih]
    · rw [if_neg hc, if_neg hc, List.length_modifyHead, ih]

/-- The rows of texts joined by line feeds are those of each of them. -/
theorem rows_intercalate {texts : List String} (hne : texts ≠ []) :
    rows ("\n".intercalate texts) = texts.flatMap rows := by
  have hjoin : ("\n".intercalate texts).toList = ['\n'].intercalate (texts.map String.toList) :=
    String.toList_intercalate
  rw [rows, hjoin]
  clear hjoin
  induction texts with
  | nil => exact absurd rfl hne
  | cons text rest ih =>
    cases rest with
    | nil => simp [rows]
    | cons next rest =>
      rw [List.map_cons, List.map_cons, List.intercalate_cons_cons, List.append_assoc,
        List.singleton_append, List.splitOn_append_cons_self, List.map_append, List.flatMap_cons,
        ← ih (List.cons_ne_nil next rest), List.map_cons]
      rfl

/-- Joined texts have one row for each text and one more for each line feed in a text. -/
theorem length_flatMap_rows (texts : List String) :
    (texts.flatMap rows).length = texts.length + (texts.map lineFeeds).sum := by
  induction texts with
  | nil => rfl
  | cons text rest ih =>
    rw [List.flatMap_cons, List.length_append, length_rows, ih, List.map_cons, List.sum_cons,
      List.length_cons]
    omega

/-- Joined texts are the rows of what they are joined to exactly if there are no line feeds in
them. -/
theorem flatMap_rows_eq_iff {texts : List String} :
    texts.flatMap rows = texts ↔ (texts.map lineFeeds).sum = 0 := by
  constructor
  · intro h
    have hlength := length_flatMap_rows texts
    rw [h] at hlength
    omega
  · intro h
    induction texts with
    | nil => rfl
    | cons text rest ih =>
      rw [List.map_cons, List.sum_cons] at h
      rw [List.flatMap_cons, rows_of_lineFeeds_eq_zero (by omega), ih (by omega)]
      rfl

/-- Texts have no line feeds among them exactly if none of their characters is one. -/
theorem sum_lineFeeds_eq_zero_iff {texts : List String} :
    (texts.map lineFeeds).sum = 0 ↔ ∀ text ∈ texts, '\n' ∉ text.toList := by
  induction texts with
  | nil => simp
  | cons text rest ih =>
    rw [List.map_cons, List.sum_cons, Nat.add_eq_zero_iff, lineFeeds_eq_zero_iff, ih,
      List.forall_mem_cons]

/-- A number in decimal digits has no line feeds. -/
theorem lineFeeds_nat (n : Nat) : lineFeeds n.repr = 0 := by
  rw [lineFeeds_eq_zero_iff, Nat.repr_eq_ofList_toDigits, String.toList_ofList]
  intro hmem
  cases Json.isDigit_of_mem_toDigits hmem

/-- Neither has one with a sign. -/
theorem lineFeeds_int (n : Int) : lineFeeds (toString n) = 0 := by
  cases n with
  | ofNat n => exact lineFeeds_nat n
  | negSucc n =>
    change lineFeeds ("-" ++ (n + 1).repr) = 0
    rw [lineFeeds_append, lineFeeds_nat]
    rfl

end Text

open Text (rows lineFeeds)

/-! ### One diagnostic -/

/-- The line feeds of a diagnostic in plain text are those of its file name and its message. -/
theorem Diagnostic.lineFeeds_display (d : Diagnostic) :
    lineFeeds d.display = lineFeeds d.fileName + lineFeeds d.message := by
  have hopen : lineFeeds " (" = 0 := by decide
  have hcomma : lineFeeds "," = 0 := by decide
  have hclose : lineFeeds "): " = 0 := by decide
  have hdisplay : d.display = d.fileName ++ " (" ++ toString d.line ++ "," ++ toString d.column ++
      "): " ++ d.message := by
    simp [display, toString]
  simp only [hdisplay, Text.lineFeeds_append, Text.lineFeeds_int, hopen, hcomma, hclose]
  omega

namespace Judgement

variable {level : RuleInfo → Level} {fileName : String} {lines : Text.LineMap}

/-- The line feeds that a judgement brings into plain text: those of the message of its finding, if
it has one and its rule is enforced. -/
def lineFeeds (level : RuleInfo → Level) (judgement : Judgement) : Nat :=
  if level judgement.info = .allow then 0
  else judgement.finding?.elim 0 fun finding => Text.lineFeeds finding.message

/-- The diagnostic of a judgement has the given file name and the message of the finding. -/
theorem lineFeeds_eq_of_report? {judgement : Judgement} {d : Diagnostic}
    (h : judgement.report? level fileName lines = some (.ok d)) :
    d.fileName = fileName ∧ judgement.lineFeeds level = Text.lineFeeds d.message := by
  unfold report? at h
  unfold lineFeeds
  cases hfinding : judgement.finding? with
  | none => simp [hfinding] at h
  | some finding =>
    by_cases hallow : level judgement.info = .allow
    · simp [hfinding, hallow] at h
    · simp only [hfinding, if_neg hallow] at h ⊢
      cases hposition : lines.position judgement.start with
      | error e => simp [hposition, Except.map] at h
      | ok position =>
        simp only [hposition, Except.map, Option.some.injEq, Except.ok.injEq] at h
        subst h
        exact ⟨rfl, rfl⟩

/-- A judgement without a diagnostic brings no line feeds. -/
theorem lineFeeds_of_report?_eq_none {judgement : Judgement}
    (h : judgement.report? level fileName lines = none) : judgement.lineFeeds level = 0 := by
  unfold report? at h
  unfold lineFeeds
  cases hfinding : judgement.finding? with
  | none => simp
  | some finding =>
    by_cases hallow : level judgement.info = .allow
    · rw [if_pos hallow]
    · simp [hfinding, hallow] at h

/-- The diagnostics of judgements all have the file name, and the line feeds of their messages are
those that the judgements bring. -/
theorem sum_lineFeeds {judgements : List Judgement} {diagnostics : List Diagnostic}
    (h : judgements.filterMap (report? level fileName lines) = diagnostics.map .ok) :
    (∀ d ∈ diagnostics, d.fileName = fileName) ∧
      (diagnostics.map fun d => Text.lineFeeds d.message).sum =
        (judgements.map (lineFeeds level)).sum := by
  induction judgements generalizing diagnostics with
  | nil =>
    obtain rfl : diagnostics = [] := List.map_eq_nil_iff.mp h.symm
    exact ⟨List.forall_mem_nil _, rfl⟩
  | cons judgement rest ih =>
    cases hreport : judgement.report? level fileName lines with
    | none =>
      rw [List.filterMap_cons_none hreport] at h
      rw [List.map_cons, List.sum_cons, lineFeeds_of_report?_eq_none hreport, Nat.zero_add]
      exact ih h
    | some report =>
      rw [List.filterMap_cons_some hreport] at h
      cases diagnostics with
      | nil => cases h
      | cons d more =>
        obtain ⟨rfl, hrest⟩ := List.cons.inj h
        obtain ⟨hname, hmessage⟩ := lineFeeds_eq_of_report? hreport
        obtain ⟨hnames, hsum⟩ := ih hrest
        refine ⟨List.forall_mem_cons.mpr ⟨hname, hnames⟩, ?_⟩
        rw [List.map_cons, List.sum_cons, List.map_cons, List.sum_cons, hmessage, hsum]

end Judgement

/-! ### Objects of a document -/

namespace Document

/-- The name that an object gives to a variable, if it does. -/
def variableName? (fields : Fields) : Option String :=
  if kindIn fields = .variableDeclaration then text? fields "name" else none

/-- A name in camel case has no line feeds. -/
theorem lineFeeds_of_isCamelCase {name : String} (h : Naming.isCamelCase name = true) :
    lineFeeds name = 0 := by
  obtain ⟨stop, hreading, hfinal⟩ := Naming.isCamelCase_iff_reading.mp h
  obtain ⟨_, hchars, _⟩ := hreading.neighbours hfinal
  rw [Text.lineFeeds_eq_zero_iff]
  intro hmem
  exact absurd (hchars _ hmem) (by unfold Naming.IsNameChar; decide)

section Judgements

variable {level : RuleInfo → Level} {fields : Fields}

/-- A finding whose message has no line feeds brings none. -/
theorem lineFeeds_of_message {judgement : Judgement}
    (h : ∀ finding, judgement.verdict = .ok (some finding) → lineFeeds finding.message = 0) :
    judgement.lineFeeds level = 0 := by
  unfold Judgement.lineFeeds Judgement.finding?
  split
  · rfl
  · cases hverdict : judgement.verdict with
    | error fault => rfl
    | ok found =>
      cases found with
      | none => rfl
      | some finding => exact h finding hverdict

/-- The judgement on a name brings the line feeds of the name, unless its rule is not enforced. -/
theorem lineFeeds_naming (kind : Kind) (start : Int) :
    Judgement.lineFeeds level ⟨kind, start, Catalog.camelCaseNamingInfo, namingVerdict fields⟩ =
      if level Catalog.camelCaseNamingInfo = .allow then 0
      else (text? fields "name").elim 0 lineFeeds := by
  have hfront : lineFeeds "Variables must be named in camelCase. " = 0 := by decide
  have hback : lineFeeds " is invalid." = 0 := by decide
  unfold Judgement.lineFeeds
  split
  · rfl
  · simp only [Judgement.finding?, namingVerdict]
    cases text? fields "name" with
    | none => rfl
    | some name =>
      by_cases hcamel : Naming.isCamelCase name = true
      · simp [hcamel, lineFeeds_of_isCamelCase hcamel]
      · simp [hcamel, Text.lineFeeds_append, hfront, hback]

/-- The message on a return type has no line feeds. -/
theorem lineFeeds_returnTypeVerdict {finding : Finding}
    (h : returnTypeVerdict fields = .ok (some finding)) : lineFeeds finding.message = 0 := by
  unfold returnTypeVerdict at h
  split at h <;> cases h
  decide

/-- The message on an annotation as `any` has no line feeds. -/
theorem lineFeeds_anyVerdict {finding : Finding}
    (h : anyVerdict fields = .ok (some finding)) : lineFeeds finding.message = 0 := by
  unfold anyVerdict at h
  split at h
  · cases h
  · cases h
  · split at h <;> cases h
    decide

/-- The message on a name that mentions a type has no line feeds. -/
theorem lineFeeds_enumVerdict {finding : Finding}
    (h : enumVerdict fields = .ok (some finding)) : lineFeeds finding.message = 0 := by
  unfold enumVerdict at h
  split at h
  · cases h
  · split at h
    · split at h
      · cases h
      · split at h <;> cases h
        change lineFeeds "Use Enums to represent types, not strings" = 0
        decide
    · cases h

/-- What the reference rules say about an object brings the line feeds of the name of a variable,
unless the rule on names is not enforced. -/
theorem sum_lineFeeds_judgements :
    ((judgements fields).map (Judgement.lineFeeds level)).sum =
      if level Catalog.camelCaseNamingInfo = .allow then 0
      else (variableName? fields).elim 0 lineFeeds := by
  unfold judgements variableName?
  split
  · next hkind =>
    have hfunction : Judgement.lineFeeds level ⟨.functionDeclaration, startIn fields,
        Catalog.explicitReturnTypeInfo, returnTypeVerdict fields⟩ = 0 :=
      lineFeeds_of_message fun _ => lineFeeds_returnTypeVerdict
    have hvariable : Kind.functionDeclaration ≠ .variableDeclaration := by decide
    rw [hkind, if_neg hvariable, List.map_singleton, List.sum_singleton, hfunction]
    simp
  · next hkind =>
    have hany : Judgement.lineFeeds level ⟨.variableDeclaration, startIn fields,
        Catalog.noExplicitAnyInfo, anyVerdict fields⟩ = 0 :=
      lineFeeds_of_message fun _ => lineFeeds_anyVerdict
    have henum : Judgement.lineFeeds level ⟨.variableDeclaration, startIn fields,
        Catalog.preferEnumInfo, enumVerdict fields⟩ = 0 :=
      lineFeeds_of_message fun _ => lineFeeds_enumVerdict
    rw [hkind, if_pos rfl, List.map_cons, List.map_cons, List.map_singleton, List.sum_cons,
      List.sum_cons, List.sum_singleton, hany, henum, lineFeeds_naming, Nat.zero_add, Nat.add_zero]
  · next hvariable =>
    rw [if_neg hvariable]
    simp

/-- Over several objects they bring the line feeds of all names of variables. -/
theorem sum_lineFeeds_flatMap (objects : List Fields) :
    ((objects.flatMap judgements).map (Judgement.lineFeeds level)).sum =
      if level Catalog.camelCaseNamingInfo = .allow then 0
      else ((objects.filterMap variableName?).map lineFeeds).sum := by
  induction objects with
  | nil => simp
  | cons fields rest ih =>
    rw [List.flatMap_cons, List.map_append, List.sum_append, ih, sum_lineFeeds_judgements]
    split
    · rfl
    · cases hname : variableName? fields with
      | none => rw [List.filterMap_cons_none hname, Option.elim_none, Nat.zero_add]
      | some name =>
        rw [List.filterMap_cons_some hname, Option.elim_some, List.map_cons, List.sum_cons]

end Judgements

/-- A diagnostic in plain text, in a file of the given name. -/
def plainText (fileName : String) (d : Diagnostic) : String :=
  s!"{fileName} ({d.line},{d.column}): {d.message}"

/-- A run with the reference rules over a decoded document has the diagnostics of all judgements on
its objects. -/
theorem reports_of_decode {allowUnknown : Bool} {document : Json} {loaded : LoadedTree}
    (h : decode allowUnknown document = .ok loaded) {fallback : Option Types.Resolver}
    {config : Configuration} {result : LintResult}
    (hrun : (({ resolver := fallback, config := config } : Linter).run loaded.source
      (some loaded.resolver)).outcome = .ok result) :
    ∃ root, document.field? "root" = some root ∧
      ((objects root).flatMap judgements).filterMap
        (Judgement.report? (config.levelFor Registry.reference loaded.text) loaded.fileName
          (.ofText loaded.text)) = result.diagnostics.map .ok := by
  obtain ⟨root, _, _, hroot, hkind, hobjects⟩ := exists_root_of_decode h
  rw [run_outcome_of_mirrors hkind hobjects, mapError_eq_ok_iff] at hrun
  exact ⟨root, hroot, (LintResult.reference_eq_ok_iff.mp hrun).1⟩

/-- Diagnostics of the reference rules over a decoded document, in a file whose name has no line
feed, take one row of plain text each, and one more for each line feed in the name of a variable if
the rule on names is enforced. So the rows are the diagnostics, one each and in order, exactly if
that rule is not enforced or no variable has such a name. -/
theorem plain_text_rows (allowUnknown : Bool) (document : Json) (loaded : LoadedTree)
    (h : decode allowUnknown document = .ok loaded) (hfileName : '\n' ∉ loaded.fileName.toList)
    (fallback : Option Types.Resolver) (config : Configuration) (result : LintResult)
    (hrun : (({ resolver := fallback, config := config } : Linter).run loaded.source
      (some loaded.resolver)).outcome = .ok result)
    (hne : result.diagnostics ≠ []) :
    ∃ root, document.field? "root" = some root ∧
      rows (renderText result.diagnostics) =
        result.diagnostics.flatMap (fun d => rows (plainText loaded.fileName d)) ∧
      (rows (renderText result.diagnostics)).length = result.diagnostics.length +
        (if config.levelFor Registry.reference loaded.text Catalog.camelCaseNamingInfo = .allow
        then 0 else (((objects root).filterMap variableName?).map lineFeeds).sum) ∧
      (rows (renderText result.diagnostics) =
          result.diagnostics.map (plainText loaded.fileName) ↔
        config.levelFor Registry.reference loaded.text Catalog.camelCaseNamingInfo = .allow ∨
          ∀ name ∈ (objects root).filterMap variableName?, '\n' ∉ name.toList) := by
  obtain ⟨root, hroot, hreports⟩ := reports_of_decode h hrun
  obtain ⟨hnames, hsum⟩ := Judgement.sum_lineFeeds hreports
  rw [sum_lineFeeds_flatMap] at hsum
  have hshown : result.diagnostics.map Diagnostic.display =
      result.diagnostics.map (plainText loaded.fileName) :=
    List.map_congr_left fun d hd => by rw [Diagnostic.display, hnames d hd, plainText]
  have hrows : rows (renderText result.diagnostics) =
      (result.diagnostics.map (plainText loaded.fileName)).flatMap rows := by
    rw [renderText, Text.rows_intercalate (mt List.map_eq_nil_iff.mp hne), hshown]
  -- With no line feed in the file name, those of the messages are all there are.
  have hfeeds : ((result.diagnostics.map (plainText loaded.fileName)).map lineFeeds).sum =
      (result.diagnostics.map fun d => lineFeeds d.message).sum := by
    rw [← hshown, List.map_map]
    refine congrArg List.sum (List.map_congr_left fun d hd => ?_)
    rw [Function.comp_apply, d.lineFeeds_display, hnames d hd,
      Text.lineFeeds_eq_zero_iff.mpr hfileName, Nat.zero_add]
  rw [hsum] at hfeeds
  refine ⟨root, hroot, ?_, ?_, ?_⟩
  · rw [hrows, List.flatMap_map]
  · rw [hrows, Text.length_flatMap_rows, hfeeds, List.length_map]
  · rw [hrows, Text.flatMap_rows_eq_iff, hfeeds]
    split
    · next hallow => exact iff_of_true rfl (.inl hallow)
    · next henforced => rw [Text.sum_lineFeeds_eq_zero_iff, or_iff_right henforced]

/-- A document with a variable whose name has a line feed in it. -/
def brokenName : Json :=
  .obj [("fileName", .str "x.ts"), ("text", .str "let a_b;"),
    ("root", .obj [("kind", .str "SourceFile"), ("pos", .int 0), ("children", .arr [
      .obj [("kind", .str "VariableDeclaration"), ("pos", .int 4), ("name", .str "a\nb")]])])]

/-- The only diagnostic on the document. -/
def brokenNameReport : Diagnostic :=
  ⟨"x.ts", 1, 5, "Variables must be named in camelCase. a\nb is invalid.", "TL003",
    "camel-case-naming", .warning, 4, none⟩

/-- The document is decoded, and a run over it reports the name. -/
theorem exists_run_brokenName :
    ∃ loaded, decode false brokenName = .ok loaded ∧ loaded.fileName = "x.ts" ∧
      loaded.text = "let a_b;" ∧
      (({} : Linter).run loaded.source (some loaded.resolver)).outcome =
        .ok ⟨"x.ts", "let a_b;", [brokenNameReport], ⟨2, 3, 1, 0, []⟩⟩ := by
  have haccepted : (decode false brokenName).toOption.isSome = true := by decide +kernel
  cases hloaded : decode false brokenName with
  | error e => simp [hloaded, Except.toOption] at haccepted
  | ok loaded =>
    obtain ⟨root, hfileName, htext, hroot, hkind, hobjects⟩ := exists_root_of_decode hloaded
    obtain ⟨fileName, text, tree, types⟩ := loaded
    cases hfileName
    cases htext
    cases hroot
    refine ⟨_, rfl, rfl, rfl, ?_⟩
    rw [run_outcome_of_mirrors hkind hobjects none {}, mapError_eq_ok_iff]
    dsimp only
    decide +kernel

/-- The diagnostic takes one row more than diagnostics do without line feeds in names. -/
theorem plain_text_rows_brokenName :
    ∃ loaded, decode false brokenName = .ok loaded ∧
      (({} : Linter).run loaded.source (some loaded.resolver)).outcome =
        .ok ⟨"x.ts", "let a_b;", [brokenNameReport], ⟨2, 3, 1, 0, []⟩⟩ ∧
      (rows (renderText [brokenNameReport])).length = 1 + lineFeeds "a\nb" := by
  obtain ⟨loaded, hloaded, hfileName, htext, hrun⟩ := exists_run_brokenName
  obtain ⟨root, hroot, _, hlength, _⟩ := plain_text_rows false brokenName loaded hloaded
    (by rw [hfileName]; decide) none {} _ hrun (List.cons_ne_nil _ _)
  refine ⟨loaded, hloaded, hrun, hlength.trans ?_⟩
  rw [htext]
  cases hroot
  decide +kernel

/-- The one diagnostic is shown in two rows, neither of which is the diagnostic. -/
theorem rows_of_brokenName :
    ∃ loaded, decode false brokenName = .ok loaded ∧
      (({} : Linter).run loaded.source (some loaded.resolver)).outcome =
        .ok ⟨"x.ts", "let a_b;", [brokenNameReport], ⟨2, 3, 1, 0, []⟩⟩ ∧
      rows (renderText [brokenNameReport]) =
        ["x.ts (1,5): Variables must be named in camelCase. a", "b is invalid."] ∧
      rows (renderText [brokenNameReport]) ≠ [plainText "x.ts" brokenNameReport] := by
  obtain ⟨loaded, hloaded, _, _, hrun⟩ := exists_run_brokenName
  exact ⟨loaded, hloaded, hrun, by decide +kernel, by decide +kernel⟩

end Document

end TreeLint
