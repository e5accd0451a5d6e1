import TreeLint.Proofs.Config.Directive
import TreeLint.Proofs.Text.Layout

/-!
# The grammar of directives

The parts of a directive are told apart by their characters: white space is followed by a character
that is none, the letters of an action by a parenthesis, and those of an identifier by another. A
text is therefore put together from such parts in at most one way. The parts of a text that is read
as a directive give its level and its identifier, and a text that is not put together so is refused.
On a line, what is read begins at the first marker.
-/

namespace TreeLint

namespace Text

/-- Runs inside of a class, each before a word that begins outside of it, are the same in equal
texts, and so is what follows. -/
theorem run_append_inj {p : Char → Bool} {run run' word word' rest rest' : List Char}
    (hrun : ∀ c ∈ run, p c = true) (hword : word.head?.any (!p ·) = true)
    (hrun' : ∀ c ∈ run', p c = true) (hword' : word'.head?.any (!p ·) = true)
    (h : run ++ (word ++ rest) = run' ++ (word' ++ rest')) :
    run = run' ∧ word ++ rest = word' ++ rest' := by
  have hcut {run word rest : List Char} (hrun : ∀ c ∈ run, p c = true)
      (hword : word.head?.any (!p ·) = true) : (run ++ (word ++ rest)).takeWhile p = run := by
    cases word with
    | nil => cases hword
    | cons c word =>
      have hc : p c = false := by simpa using hword
      exact ((takeWhile_dropWhile_eq_iff hc).mpr ⟨hrun, rfl⟩).1
  have hsame : run = run' := by rw [← hcut hrun hword, h, hcut hrun' hword']
  subst hsame
  exact ⟨rfl, List.append_cancel_left h⟩

/-- What is left of a text without the white space at its ends. -/
structure IsTrimmed (text middle : List Char) : Prop where
  between : ∃ before after, Blanks before ∧ Blanks after ∧ text = before ++ middle ++ after
  head : ∀ c ∈ middle.head?, isBlank c = false
  last : ∀ c ∈ middle.getLast?, isBlank c = false

/-- What is left by dropping white space does not begin with some. -/
theorem isBlank_of_mem_head?_dropWhile {text : List Char} {c : Char}
    (h : c ∈ (text.dropWhile isBlank).head?) : isBlank c = false := by
  have hhead := List.head?_dropWhile_not isBlank text
  rwa [Option.mem_def.mp h] at hhead

/-- Trimming leaves what stands between the white space at the ends. -/
theorem isTrimmed_trim (text : List Char) : IsTrimmed text (trim text) where
  between := exists_blanks_trim text
  head := by
    intro c hc
    -- Dropping at the end keeps the character in front.
    have hsuffix := List.dropWhile_suffix (l := (text.dropWhile isBlank).reverse) isBlank
    obtain ⟨rest, hrest⟩ := List.reverse_prefix.mpr hsuffix
    apply isBlank_of_mem_head?_dropWhile
    rw [← List.reverse_reverse (text.dropWhile isBlank), ← hrest, List.head?_append]
    exact Option.mem_def.mpr (by rw [← trim, Option.mem_def.mp hc, Option.some_or])
  last := by
    intro c hc
    rw [trim, List.getLast?_reverse] at hc
    exact isBlank_of_mem_head?_dropWhile hc

end Text

namespace Directive

open Text (Blanks)

/-- The words for actions. -/
def actions : List (List Char) :=
  ["allow".toList, "warn".toList, "deny".toList]

/-- The parts of a text that is a directive: white space, two slashes, white space, the keyword,
white space, an action, an identifier between parentheses, and white space. -/
@[ext]
structure Spelling where
  before : List Char
  inner : List Char
  between : List Char
  action : List Char
  identifier : List Char
  after : List Char
  blanks_before : Blanks before
  blanks_inner : Blanks inner
  blanks_between : Blanks between
  blanks_after : Blanks after
  action_mem : action ∈ actions
  identifier_ne : identifier ≠ []
  isIdChar_of_mem : ∀ c ∈ identifier, isIdChar c = true

/-- The text of the parts of a directive. -/
def Spelling.text (s : Spelling) : List Char :=
  s.before ++ "//".toList ++ s.inner ++ keyword ++ s.between ++ s.action ++ "(".toList ++
    s.identifier ++ ")".toList ++ s.after

/-- The parts of a directive, each with what follows. -/
theorem Spelling.text_eq (s : Spelling) :
    s.text = s.before ++ ("//".toList ++ (s.inner ++ (keyword ++ (s.between ++ (s.action ++
      ("(".toList ++ (s.identifier ++ (")".toList ++ s.after)))))))) := by
  simp only [text, List.append_assoc]

/-- An action does not begin with white space. -/
theorem Spelling.head?_action (s : Spelling) : s.action.head?.any (!Text.isBlank ·) = true := by
  have hactions : ∀ action ∈ actions, action.head?.any (!Text.isBlank ·) = true := by decide
  exact hactions s.action s.action_mem

/-- An action has letters only. -/
theorem Spelling.isLower_action (s : Spelling) : ∀ c ∈ s.action, Text.isLower c = true := by
  have hactions : ∀ action ∈ actions, action.all Text.isLower = true := by decide
  exact List.all_eq_true.mp (hactions s.action s.action_mem)

/-- A text is put together from parts in at most one way. -/
theorem Spelling.text_injective : Function.Injective text := by
  intro s t h
  -- Each part ends where the next one begins with a character of another sort.
  rw [text_eq, text_eq] at h
  obtain ⟨hbefore, h⟩ := Text.run_append_inj s.blanks_before (by decide) t.blanks_before
    (by decide) h
  obtain ⟨hinner, h⟩ := Text.run_append_inj s.blanks_inner (by decide) t.blanks_inner
    (by decide) (List.append_cancel_left h)
  obtain ⟨hbetween, h⟩ := Text.run_append_inj s.blanks_between s.head?_action t.blanks_between
    t.head?_action (List.append_cancel_left h)
  obtain ⟨haction, h⟩ := Text.run_append_inj s.isLower_action (by decide) t.isLower_action
    (by decide) h
  obtain ⟨hidentifier, h⟩ := Text.run_append_inj s.isIdChar_of_mem (by decide) t.isIdChar_of_mem
    (by decide) (List.append_cancel_left h)
  exact Spelling.ext hbefore hinner hbetween haction hidentifier (List.append_cancel_left h)

/-- The name of a level is an action. -/
theorem label_mem_actions (level : Level) : level.label.toList ∈ actions := by
  cases level <;> decide

/-- Every action is the name of a level. -/
theorem exists_label_of_mem_actions {action : List Char} (h : action ∈ actions) :
    ∃ level : Level, action = level.label.toList := by
  simp only [actions, List.mem_cons, List.not_mem_nil, or_false] at h
  rcases h with rfl | rfl | rfl
  · exact ⟨.allow, rfl⟩
  · exact ⟨.warn, rfl⟩
  · exact ⟨.deny, rfl⟩

/-- A text spells a directive exactly if its parts have the level and the identifier. -/
theorem spells_iff_exists_spelling {text : List Char} {directive : Directive} :
    Spells text directive ↔ ∃ s : Spelling, s.text = text ∧
      s.action = directive.level.label.toList ∧ s.identifier = directive.identifier.toList := by
  constructor
  · rintro ⟨before, inner, between, after, hbefore, hinner, hbetween, hafter, hne, hchars, rfl⟩
    exact ⟨⟨before, inner, between, _, _, after, hbefore, hinner, hbetween, hafter,
      label_mem_actions directive.level, hne, hchars⟩, rfl, rfl, rfl⟩
  · rintro ⟨s, rfl, haction, hidentifier⟩
    refine ⟨s.before, s.inner, s.between, s.after, s.blanks_before, s.blanks_inner,
      s.blanks_between, s.blanks_after, ?_⟩
    rw [← hidentifier, ← haction]
    exact ⟨s.identifier_ne, s.isIdChar_of_mem, rfl⟩

/-- The text of parts spells a directive. -/
theorem Spelling.exists_spells (s : Spelling) : ∃ directive, Spells s.text directive := by
  obtain ⟨level, haction⟩ := exists_label_of_mem_actions s.action_mem
  exact ⟨⟨level, String.ofList s.identifier⟩, spells_iff_exists_spelling.mpr
    ⟨s, rfl, haction, String.toList_ofList.symm⟩⟩

/-- A text is refused exactly if it is not put together from parts, with what is left of it by
trimming. -/
theorem parse_eq_error_iff_no_spelling {text : List Char} {e : DirectiveError} :
    parse text = .error e ↔
      (∀ s : Spelling, s.text ≠ text) ∧ e = ⟨String.ofList (Text.trim text)⟩ := by
  rw [parse_eq_error_iff]
  refine and_congr_left fun _ => ⟨?_, ?_⟩
  · rintro hnone s rfl
    obtain ⟨directive, hspells⟩ := s.exists_spells
    exact hnone directive hspells
  · intro hnone directive hspells
    obtain ⟨s, hs, _⟩ := spells_iff_exists_spelling.mp hspells
    exact hnone s hs

end Directive

namespace Configuration

open Directive (Marked IsMarkedPart)

variable {line part : List Char}

/-- A line without a marker changes nothing. -/
theorem applyLine_of_not_marked (h : ∀ part, part <:+ line → ¬ Marked part)
    (registry : Option Registry) (config : Configuration) (number : Nat) :
    config.applyLine registry number line = (config, none) := by
  rw [applyLine, Directive.find?_eq_none_iff.mpr h]

/-- A line is skipped with a note if its part from the first marker on is refused. -/
theorem applyLine_of_parse_error (h : IsMarkedPart line part) {e : DirectiveError}
    (hparse : Directive.parse part = .error e) (registry : Option Registry)
    (config : Configuration) (number : Nat) :
    config.applyLine registry number line =
      (config, some ⟨.warning, s!"line {number}: {e.message}"⟩) := by
  simp only [applyLine, Directive.find?_eq_some_iff.mpr h, hparse]

/-- Where rules are not known, a line sets the level that its part from the first marker on asks
for. -/
theorem applyLine_of_parse_ok (h : IsMarkedPart line part) {directive : Directive}
    (hparse : Directive.parse part = .ok directive) (config : Configuration) (number : Nat) :
    config.applyLine none number line =
      (config.set directive.identifier directive.level, none) := by
  simp only [applyLine, Directive.find?_eq_some_iff.mpr h, hparse]

end Configuration

namespace Directive

/-- A text is read as a directive exactly if it is put together from the parts of one, which can be
done in one way only, and the parts tell the level and the identifier; any other text is refused
with what is left of it without the white space at its ends. Of a line, what is read is the longest
part that ends the line and begins with a marker, and nothing if there is no such part; the lines of
a source are all looked at, in order. -/
theorem directives_follow_grammar :
    (∀ text : List Char,
      (∀ directive, parse text = .ok directive ↔ ∃ s : Spelling, s.text = text ∧
        s.action = directive.level.label.toList ∧ s.identifier = directive.identifier.toList) ∧
      (∀ s t : Spelling, s.text = text → t.text = text → s = t) ∧
      Text.IsTrimmed text (Text.trim text) ∧
      ((∃ e, parse text = .error e) ↔ ∀ s : Spelling, s.text ≠ text) ∧
      ∀ e, parse text = .error e →
        e.message = "Invalid lint directive: " ++ String.ofList (Text.trim text)) ∧
    (∀ line : List Char,
      (∀ part, find? line = some part ↔ IsMarkedPart line part) ∧
      (find? line = none ↔ ∀ part, part <:+ line → ¬ Marked part) ∧
      ∀ (config : Configuration) (registry : Option Registry) (number : Nat),
        ((∀ part, part <:+ line → ¬ Marked part) →
          config.applyLine registry number line = (config, none)) ∧
        ∀ part, IsMarkedPart line part →
          (∀ e, parse part = .error e → config.applyLine registry number line =
            (config, some ⟨.warning, s!"line {number}: {e.message}"⟩)) ∧
          ∀ directive, parse part = .ok directive → config.applyLine none number line =
            (config.set directive.identifier directive.level, none)) ∧
    ∀ rows last, Text.IsLayout rows last → ∀ (config : Configuration) (registry : Option Registry),
      config.withDirectives (String.ofList (Text.joinRows rows ++ last)) registry =
        config.applyLines registry
          ((Text.layoutLines rows last).mapIdx fun i line => (i + 1, line)) := by
  refine ⟨fun text => ⟨fun directive => ?_, fun s t hs ht => ?_, Text.isTrimmed_trim text, ?_,
      fun e he => ?_⟩,
    fun line => ⟨fun part => find?_eq_some_iff, find?_eq_none_iff, fun config registry number =>
      ⟨fun hnone => Configuration.applyLine_of_not_marked hnone registry config number,
        fun part hpart => ⟨fun e he => ?_, fun directive hdirective => ?_⟩⟩⟩,
    fun rows last hlayout config registry => ?_⟩
  · rw [parse_eq_ok_iff, spells_iff_exists_spelling]
  · exact Spelling.text_injective (hs.trans ht.symm)
  · simp only [parse_eq_error_iff_no_spelling, exists_and_left, exists_eq, and_true]
  · rw [(parse_eq_error_iff_no_spelling.mp he).2]
    rfl
  · exact Configuration.applyLine_of_parse_error hpart he registry config number
  · exact Configuration.applyLine_of_parse_ok hpart hdirective config number
  · rw [Configuration.withDirectives, Text.LineMap.numberedLines_layout hlayout]

/-- The parts of a directive with white space of several sorts. -/
def spacedSpelling : Spelling where
  before := ['\u2003']
  inner := []
  between := ['\t', '\u00a0']
  action := "deny".toList
  identifier := "TL_003-x".toList
  after := ['\n']
  blanks_before := List.all_eq_true.mp (by decide)
  blanks_inner := List.all_eq_true.mp (by decide)
  blanks_between := List.all_eq_true.mp (by decide)
  blanks_after := List.all_eq_true.mp (by decide)
  action_mem := by decide
  identifier_ne := by decide
  isIdChar_of_mem := List.all_eq_true.mp (by decide)

/-- A line with two markers. -/
def twiceMarked : List Char :=
  "f(); //typelint: deny(a) // typelint:warn(b) ".toList

/-- A directive with white space of several sorts is read, and its parts are the only ones. A line
with two markers is read from the first one on, and refused. -/
theorem spacedSpelling_follows_grammar :
    parse spacedSpelling.text = .ok ⟨.deny, "TL_003-x"⟩ ∧
    (∀ s : Spelling, s.text = spacedSpelling.text → s = spacedSpelling) ∧
    IsMarkedPart twiceMarked (twiceMarked.drop 5) ∧
    ({} : Configuration).applyLine none 7 twiceMarked = ({}, some ⟨.warning,
      "line 7: Invalid lint directive: //typelint: deny(a) // typelint:warn(b)"⟩) := by
  obtain ⟨hparse, hunique, _⟩ := directives_follow_grammar.1 spacedSpelling.text
  obtain ⟨hfind, _, hlines⟩ := directives_follow_grammar.2.1 twiceMarked
  have hpart : IsMarkedPart twiceMarked (twiceMarked.drop 5) := (hfind _).mp (by decide)
  refine ⟨(hparse ⟨.deny, "TL_003-x"⟩).mpr ⟨spacedSpelling, rfl, by decide, by decide⟩,
    fun s hs => hunique s spacedSpelling hs rfl, hpart, ?_⟩
  have hline := ((hlines {} none 7).2 _ hpart).1 ⟨"//typelint: deny(a) // typelint:warn(b)"⟩
    (by decide)
  exact hline.trans (by decide)

end Directive

end TreeLint
