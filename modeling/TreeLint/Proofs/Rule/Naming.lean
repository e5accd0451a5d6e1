import Mathlib.Data.List.Chain
import Mathlib.Data.List.TakeWhile
import TreeLint.Rule.Naming

/-!
# Names in camel case

Two descriptions of the names in camel case, beside the machine that recognises them. A name splits
into a run of lower-case letters, segments, and perhaps an upper-case letter at its end; as a digit
may be a segment or stand in one, there can be several such splits. Told from neighbouring
characters, a name begins with a lower-case letter, holds letters and digits only, and some pairs of
characters do not stand in it side by side. What the machine accepts is so by its neighbours, such
a name can be split, and the machine reads every name that is split.
-/

namespace TreeLint

namespace Text

/-- Lower-case letters by their numbers. -/
theorem isLower_iff {c : Char} : isLower c = true ↔ 97 ≤ c.toNat ∧ c.toNat ≤ 122 := by
  simp only [isLower, Bool.and_eq_true, decide_eq_true_eq, Char.le_def, UInt32.le_iff_toNat_le]
  rfl

/-- Upper-case letters by their numbers. -/
theorem isUpper_iff {c : Char} : isUpper c = true ↔ 65 ≤ c.toNat ∧ c.toNat ≤ 90 := by
  simp only [isUpper, Bool.and_eq_true, decide_eq_true_eq, Char.le_def, UInt32.le_iff_toNat_le]
  rfl

/-- ASCII digits by their numbers. -/
theorem isDigit_iff {c : Char} : isDigit c = true ↔ 48 ≤ c.toNat ∧ c.toNat ≤ 57 := by
  simp only [isDigit, Bool.and_eq_true, decide_eq_true_eq, Char.le_def, UInt32.le_iff_toNat_le]
  rfl

/-- A decimal digit stands in the run of ten that begins at one of the zeros. -/
theorem isDecimal_iff {c : Char} :
    isDecimal c = true ↔ ∃ first ∈ digitZeros, first ≤ c.toNat ∧ c.toNat < first + 10 := by
  simp only [isDecimal, digitValue?, Option.isSome_map, List.find?_isSome, Bool.and_eq_true,
    decide_eq_true_eq]

/-- An ASCII digit is a decimal digit. -/
theorem isDecimal_of_isDigit {c : Char} (h : isDigit c = true) : isDecimal c = true := by
  rw [isDigit_iff] at h
  exact isDecimal_iff.mpr ⟨48, by decide, by omega, by omega⟩

/-- No letter is a decimal digit. -/
theorem isDecimal_of_letter {c : Char} (h : isLower c = true ∨ isUpper c = true) :
    isDecimal c = false := by
  have hzeros : ∀ first ∈ digitZeros, first = 48 ∨ 128 ≤ first := by decide
  rw [isLower_iff, isUpper_iff] at h
  rw [Bool.eq_false_iff, ne_eq, isDecimal_iff]
  intro hdecimal
  obtain ⟨first, hfirst, hrun⟩ := hdecimal
  have := hzeros first hfirst
  omega

/-- No letter is both of lower and of upper case. -/
theorem isUpper_of_isLower {c : Char} (h : isLower c = true) : isUpper c = false := by
  rw [isLower_iff] at h
  rw [Bool.eq_false_iff, ne_eq, isUpper_iff]
  omega

end Text

namespace Naming

open Text (isLower isUpper isDigit isDecimal)

/-- A decimal digit outside of ASCII. -/
def IsForeignDigit (c : Char) : Prop :=
  isDecimal c = true ∧ isDigit c = false

/-- No letter is a digit outside of ASCII. -/
theorem not_isForeignDigit_of_letter {c : Char} (h : isLower c = true ∨ isUpper c = true) :
    ¬ IsForeignDigit c := by
  intro hforeign
  rw [IsForeignDigit, Text.isDecimal_of_letter h] at hforeign
  exact Bool.false_ne_true hforeign.1

/-- A lower-case letter or ASCII digit is neither an upper-case letter nor a digit outside of
ASCII. -/
theorem plain_of_lower_or_digit {c : Char} (h : isLower c = true ∨ isDigit c = true) :
    isUpper c = false ∧ ¬ IsForeignDigit c := by
  rcases h with hlower | hdigit
  · exact ⟨Text.isUpper_of_isLower hlower, not_isForeignDigit_of_letter (.inl hlower)⟩
  · refine ⟨Bool.eq_false_iff.mpr fun hupper => ?_, fun hforeign => ?_⟩
    · have hdecimal := Text.isDecimal_of_isDigit hdigit
      rw [Text.isDecimal_of_letter (.inr hupper)] at hdecimal
      cases hdecimal
    · rw [hforeign.2] at hdigit
      cases hdigit

/-- A segment of a name: a decimal digit, or an upper-case letter or ASCII digit with lower-case
letters and ASCII digits after it. -/
inductive IsSegment : List Char → Prop where
  | digit {c : Char} (hc : isDecimal c = true) : IsSegment [c]
  | word {c : Char} {tail : List Char} (hc : isUpper c = true ∨ isDigit c = true) (hne : tail ≠ [])
      (htail : ∀ d ∈ tail, isLower d = true ∨ isDigit d = true) : IsSegment (c :: tail)

/-- Segments, one after the other, and at most one upper-case letter after them. -/
def IsSequel (text : List Char) : Prop :=
  ∃ (segments : List (List Char)) (ending : List Char), text = segments.flatten ++ ending ∧
    (∀ segment ∈ segments, IsSegment segment) ∧ (ending = [] ∨ ∃ c, ending = [c] ∧ isUpper c = true)

/-- A name that splits into a run of lower-case letters, segments, and at most one upper-case
letter. -/
def IsSegmented (name : List Char) : Prop :=
  ∃ lead sequel, name = lead ++ sequel ∧ (lead ≠ [] ∧ ∀ c ∈ lead, isLower c = true) ∧
    IsSequel sequel

/-- The characters of a name. -/
def IsNameChar (c : Char) : Prop :=
  isLower c = true ∨ isUpper c = true ∨ isDecimal c = true

/-- Two characters may stand side by side: no upper-case letter before another one or before a digit
outside of ASCII, and no such digit before a lower-case letter. -/
def MayPrecede (c d : Char) : Prop :=
  (isUpper c = true → isUpper d = false ∧ ¬ IsForeignDigit d) ∧
    (IsForeignDigit c → isLower d = false)

/-- A name in camel case, told from its first character and from neighbouring ones. -/
structure IsLocallyCamel (name : List Char) : Prop where
  first : ∃ c, name.head? = some c ∧ isLower c = true
  chars : ∀ c ∈ name, IsNameChar c
  neighbours : name.IsChain MayPrecede

/-! ### Readings of the machine -/

/-- The machine can read a text from one phase to another. -/
inductive Reading : Phase → List Char → Phase → Prop where
  | nil {phase : Phase} : Reading phase [] phase
  | cons {phase middle stop : Phase} {c : Char} {rest : List Char}
      (hnext : middle ∈ phase.next c) (hrest : Reading middle rest stop) :
      Reading phase (c :: rest) stop

/-- The machine follows all readings at once. -/
theorem mem_foldl_step_iff {phases : List Phase} {text : List Char} {stop : Phase} :
    stop ∈ text.foldl step phases ↔ ∃ phase ∈ phases, Reading phase text stop := by
  induction text generalizing phases with
  | nil =>
    constructor
    · intro h
      exact ⟨stop, h, .nil⟩
    · intro h
      obtain ⟨phase, hphase, hreading⟩ := h
      cases hreading
      exact hphase
  | cons c rest ih =>
    rw [List.foldl_cons, ih]
    simp only [step, List.mem_eraseDups, List.mem_flatMap]
    constructor
    · intro h
      obtain ⟨middle, ⟨phase, hphase, hnext⟩, hrest⟩ := h
      exact ⟨phase, hphase, .cons hnext hrest⟩
    · intro h
      obtain ⟨phase, hphase, hreading⟩ := h
      cases hreading with
      | cons hnext hrest => exact ⟨_, ⟨phase, hphase, hnext⟩, hrest⟩

/-- A name is in camel case exactly if it has a reading that may end. -/
theorem isCamelCase_iff_reading {name : String} :
    isCamelCase name = true ↔ ∃ stop, Reading .first name.toList stop ∧ stop.isFinal = true := by
  simp only [isCamelCase, List.any_eq_true, mem_foldl_step_iff, List.mem_singleton,
    exists_eq_left]

/-- Readings are joined. -/
theorem Reading.append {phase middle stop : Phase} {text rest : List Char}
    (h : Reading phase text middle) (hrest : Reading middle rest stop) :
    Reading phase (text ++ rest) stop := by
  induction h with
  | nil => exact hrest
  | cons hnext _ ih => exact .cons hnext (ih hrest)

/-! ### Every name that is split is read -/

/-- The phases after which a segment may begin. -/
def Phase.IsOpen (phase : Phase) : Prop :=
  phase = .lead ∨ phase = .joint ∨ phase = .tail

/-- After an open phase, a character may begin a segment. -/
theorem Phase.IsOpen.mem_next {phase next : Phase} (h : phase.IsOpen) {c : Char}
    (hnext : next ∈ segmentPhases c) : next ∈ phase.next c := by
  rcases h with rfl | rfl | rfl
  · exact List.mem_append_right _ hnext
  · exact hnext
  · exact List.mem_append_right _ hnext

/-- A name may end after an open phase. -/
theorem Phase.IsOpen.isFinal {phase : Phase} (h : phase.IsOpen) : phase.isFinal = true := by
  rcases h with rfl | rfl | rfl <;> rfl

/-- A run of characters on which the machine stays in a phase is read in that phase. -/
theorem reading_of_stays {phase : Phase} {text : List Char}
    (h : ∀ c ∈ text, phase ∈ phase.next c) : Reading phase text phase := by
  induction text with
  | nil => exact .nil
  | cons c rest ih =>
    obtain ⟨hc, hrest⟩ := List.forall_mem_cons.mp h
    exact .cons hc (ih hrest)

/-- The run of lower-case letters at the front is read. -/
theorem reading_lead {lead : List Char} (hne : lead ≠ []) (h : ∀ c ∈ lead, isLower c = true) :
    Reading .first lead .lead := by
  cases lead with
  | nil => exact absurd rfl hne
  | cons c rest =>
    obtain ⟨hc, hrest⟩ := List.forall_mem_cons.mp h
    have hstays : Reading .lead rest .lead :=
      reading_of_stays fun d hd => by simp [Phase.next, hrest d hd]
    exact .cons (by simp [Phase.next, hc]) hstays

/-- A segment is read from an open phase to an open phase. -/
theorem IsSegment.exists_reading {segment : List Char} (h : IsSegment segment) {phase : Phase}
    (hopen : phase.IsOpen) : ∃ stop, Reading phase segment stop ∧ stop.IsOpen := by
  cases h with
  | @digit c hc =>
    have hjoint : Phase.joint ∈ phase.next c := hopen.mem_next (by simp [segmentPhases, hc])
    exact ⟨.joint, .cons hjoint .nil, .inr (.inl rfl)⟩
  | @word c tail hc hne htail =>
    have hhead : Phase.head ∈ phase.next c := hopen.mem_next (by simp [segmentPhases, hc])
    cases tail with
    | nil => exact absurd rfl hne
    | cons d rest =>
      obtain ⟨hd, hrest⟩ := List.forall_mem_cons.mp htail
      have htail : Phase.tail ∈ Phase.head.next d := by simp [Phase.next, hd]
      have hstays : Reading .tail rest .tail :=
        reading_of_stays fun e he => by simp [Phase.next, hrest e he]
      exact ⟨.tail, .cons hhead (.cons htail hstays), .inr (.inr rfl)⟩

/-- Segments are read from an open phase to an open phase. -/
theorem exists_reading_segments {segments : List (List Char)}
    (h : ∀ segment ∈ segments, IsSegment segment) {phase : Phase} (hopen : phase.IsOpen) :
    ∃ stop, Reading phase segments.flatten stop ∧ stop.IsOpen := by
  induction segments generalizing phase with
  | nil => exact ⟨phase, .nil, hopen⟩
  | cons segment rest ih =>
    obtain ⟨hsegment, hrest⟩ := List.forall_mem_cons.mp h
    obtain ⟨middle, hfirst, hmiddle⟩ := hsegment.exists_reading hopen
    obtain ⟨stop, hsecond, hstop⟩ := ih hrest hmiddle
    exact ⟨stop, hfirst.append hsecond, hstop⟩

/-- The machine reads every name that is split. -/
theorem IsSegmented.exists_reading {name : List Char} (h : IsSegmented name) :
    ∃ stop, Reading .first name stop ∧ stop.isFinal = true := by
  obtain ⟨lead, _, rfl, ⟨hne, hlead⟩, segments, ending, rfl, hsegments, hending⟩ := h
  obtain ⟨phase, hreading, hopen⟩ := exists_reading_segments hsegments (.inl rfl)
  have hfront := (reading_lead hne hlead).append hreading
  rw [← List.append_assoc]
  rcases hending with rfl | ⟨c, rfl, hc⟩
  · exact ⟨phase, by rwa [List.append_nil], hopen.isFinal⟩
  · have hend : Phase.last ∈ phase.next c := hopen.mem_next (by simp [segmentPhases, hc])
    exact ⟨.last, hfront.append (.cons hend .nil), rfl⟩

/-! ### What is read is so by its neighbours -/

/-- The characters after which the machine can stand in a phase. -/
def Phase.EndsWith : Phase → Char → Prop
  | .first, _ => False
  | .lead, c => isLower c = true
  | .joint, c => isDecimal c = true
  | .head, c => isUpper c = true ∨ isDigit c = true
  | .tail, c => isLower c = true ∨ isDigit c = true
  | .last, c => isUpper c = true

/-- How the rest of a name can begin that is read from a phase to its end. -/
def Phase.Admits : Phase → List Char → Prop
  | .first, rest => ∃ c, rest.head? = some c ∧ isLower c = true
  | .lead, _ => True
  | .joint, rest => ∀ c, rest.head? = some c → isLower c = false
  | .head, rest => ∃ c, rest.head? = some c ∧ (isLower c = true ∨ isDigit c = true)
  | .tail, _ => True
  | .last, rest => rest = []

/-- A character that begins a segment is no lower-case letter. -/
theorem isLower_of_mem_segmentPhases {next : Phase} {c : Char} (h : next ∈ segmentPhases c) :
    isLower c = false := by
  rw [Bool.eq_false_iff]
  intro hlower
  have hdecimal := Text.isDecimal_of_letter (.inl hlower)
  have hdigit : isDigit c = false :=
    Bool.eq_false_iff.mpr fun hdigit => by simp [Text.isDecimal_of_isDigit hdigit] at hdecimal
  simp [segmentPhases, hdecimal, hdigit, Text.isUpper_of_isLower hlower] at h

/-- A step ends with a character that belongs to the phase it leads to. -/
theorem Phase.endsWith_of_mem_next {phase next : Phase} {c : Char} (h : next ∈ phase.next c) :
    next.EndsWith c := by
  cases phase <;> cases next <;> simp_all [Phase.next, Phase.EndsWith, segmentPhases]

/-- A step is made on a character that the phase admits. -/
theorem Phase.admits_of_mem_next {phase next : Phase} {c : Char} {rest : List Char}
    (h : next ∈ phase.next c) : phase.Admits (c :: rest) := by
  cases phase with
  | first => exact ⟨c, rfl, by_contra fun hc => by simp [Phase.next, hc] at h⟩
  | lead => trivial
  | joint =>
    intro d hd
    cases hd
    exact isLower_of_mem_segmentPhases h
  | head =>
    refine ⟨c, rfl, by_contra fun hc => ?_⟩
    simp_all [Phase.next]
  | tail => trivial
  | last => cases h

/-- The characters after which the machine can stand in a phase are those of names. -/
theorem Phase.EndsWith.isNameChar {phase : Phase} {c : Char} (h : phase.EndsWith c) :
    IsNameChar c := by
  cases phase with
  | first => exact h.elim
  | lead => exact .inl h
  | joint => exact .inr (.inr h)
  | head => exact .inr (h.imp_right Text.isDecimal_of_isDigit)
  | tail => exact h.imp_right fun hdigit => .inr (Text.isDecimal_of_isDigit hdigit)
  | last => exact .inr (.inl h)

/-- What a phase admits may stand behind the character that leads to the phase. -/
theorem Phase.EndsWith.mayPrecede {phase : Phase} {c d : Char} {rest : List Char}
    (h : phase.EndsWith c) (hadmits : phase.Admits (d :: rest)) : MayPrecede c d := by
  cases phase with
  | first => exact h.elim
  | lead =>
    obtain ⟨hupper, hforeign⟩ := plain_of_lower_or_digit (.inl h)
    exact ⟨fun hc => by simp [hupper] at hc, fun hc => absurd hc hforeign⟩
  | joint =>
    refine ⟨fun hupper => ?_, fun _ => hadmits d rfl⟩
    have hdecimal : isDecimal c = true := h
    rw [Text.isDecimal_of_letter (.inr hupper)] at hdecimal
    cases hdecimal
  | head =>
    obtain ⟨e, he, hplain⟩ := hadmits
    cases he
    refine ⟨fun _ => plain_of_lower_or_digit hplain, fun hforeign => absurd hforeign ?_⟩
    rcases h with hupper | hdigit
    · exact not_isForeignDigit_of_letter (.inr hupper)
    · exact (plain_of_lower_or_digit (.inr hdigit)).2
  | tail =>
    obtain ⟨hupper, hforeign⟩ := plain_of_lower_or_digit h
    exact ⟨fun hc => by simp [hupper] at hc, fun hc => absurd hc hforeign⟩
  | last => cases hadmits

/-- The rest of a name that is read to its end begins as its phase admits, holds characters of names
only, and has no forbidden neighbours. -/
theorem Reading.neighbours {phase stop : Phase} {text : List Char} (h : Reading phase text stop)
    (hfinal : stop.isFinal = true) :
    phase.Admits text ∧ (∀ c ∈ text, IsNameChar c) ∧ text.IsChain MayPrecede := by
  induction h with
  | @nil phase =>
    refine ⟨?_, by simp, .nil⟩
    cases phase with
    | first => cases hfinal
    | head => cases hfinal
    | joint => exact fun _ h => nomatch h
    | lead => trivial
    | tail => trivial
    | last => rfl
  | cons hnext hrest ih =>
    obtain ⟨hadmits, hchars, hchain⟩ := ih hfinal
    have hends := Phase.endsWith_of_mem_next hnext
    refine ⟨Phase.admits_of_mem_next hnext, List.forall_mem_cons.mpr ⟨hends.isNameChar, hchars⟩,
      List.isChain_cons.mpr ⟨fun d hd => ?_, hchain⟩⟩
    obtain ⟨rest, rfl⟩ := List.head?_eq_some_iff.mp hd
    exact hends.mayPrecede hadmits

/-! ### Every name that is so by its neighbours can be split -/

/-- A segment in front of a sequel makes a sequel. -/
theorem IsSequel.append {segment rest : List Char} (h : IsSequel rest)
    (hsegment : IsSegment segment) : IsSequel (segment ++ rest) := by
  obtain ⟨segments, ending, rfl, hsegments, hending⟩ := h
  refine ⟨segment :: segments, ending, ?_, List.forall_mem_cons.mpr ⟨hsegment, hsegments⟩, hending⟩
  rw [List.flatten_cons, List.append_assoc]

/-- Behind a run of characters of a class stands none of the class. -/
theorem head?_dropWhile {p : Char → Bool} {text : List Char} {c : Char}
    (h : (text.dropWhile p).head? = some c) : p c = false := by
  have hhead := List.head?_dropWhile_not p text
  rwa [h] at hhead

/-- A text that does not begin with a lower-case letter and whose neighbours are in order begins
with a segment, behind which no lower-case letter stands, or is one upper-case letter. -/
theorem exists_segment {c : Char} {rest : List Char} (hc : isLower c = false)
    (hchars : ∀ d ∈ c :: rest, IsNameChar d) (hchain : (c :: rest).IsChain MayPrecede) :
    (rest = [] ∧ isUpper c = true) ∨
      ∃ segment sequel, c :: rest = segment ++ sequel ∧ IsSegment segment ∧
        ∀ d, sequel.head? = some d → isLower d = false := by
  obtain ⟨hnext, _⟩ := List.isChain_cons.mp hchain
  obtain ⟨hname, hnames⟩ := List.forall_mem_cons.mp hchars
  let plain := fun d => isLower d || isDigit d
  by_cases hforeign : IsForeignDigit c
  · exact .inr ⟨[c], rest, rfl, .digit hforeign.1, fun d hd => (hnext d hd).2 hforeign⟩
  have hopens : isUpper c = true ∨ isDigit c = true := by
    rcases hname with hlower | hupper | hdecimal
    · rw [hc] at hlower
      cases hlower
    · exact .inl hupper
    · refine .inr (by_contra fun hdigit => hforeign ⟨hdecimal, ?_⟩)
      simpa using hdigit
  -- The segment goes on as long as lower-case letters and digits follow.
  have hcut : rest.takeWhile plain ++ rest.dropWhile plain = rest := List.takeWhile_append_dropWhile
  by_cases htail : rest.takeWhile plain = []
  · rw [htail, List.nil_append] at hcut
    have hstops : ∀ d, rest.head? = some d → isLower d = false ∧ isDigit d = false := by
      intro d hd
      rw [← hcut] at hd
      have hplain := head?_dropWhile hd
      simpa [plain] using hplain
    rcases hopens with hupper | hdigit
    · refine .inl ⟨List.head?_eq_none_iff.mp ?_, hupper⟩
      -- Only an upper-case letter or a digit outside of ASCII could follow.
      rw [Option.eq_none_iff_forall_ne_some]
      intro d hd
      obtain ⟨hlower, hdigit⟩ := hstops d hd
      obtain ⟨hupper, hforeign⟩ := (hnext d hd).1 hupper
      rcases hnames d (List.mem_of_mem_head? hd) with h | h | h
      · exact Bool.false_ne_true (hlower.symm.trans h)
      · exact Bool.false_ne_true (hupper.symm.trans h)
      · exact hforeign ⟨h, hdigit⟩
    · exact .inr ⟨[c], rest, rfl, .digit (Text.isDecimal_of_isDigit hdigit),
        fun d hd => (hstops d hd).1⟩
  · refine .inr ⟨c :: rest.takeWhile plain, rest.dropWhile plain, by rw [List.cons_append, hcut],
      .word hopens htail fun d hd => ?_, fun d hd => ?_⟩
    · have hd := List.mem_takeWhile_imp hd
      simpa [plain] using hd
    · have hplain := head?_dropWhile hd
      simp only [plain, Bool.or_eq_false_iff] at hplain
      exact hplain.1

/-- A text that does not begin with a lower-case letter and whose neighbours are in order splits
into segments and at most one upper-case letter. -/
theorem isSequel_of_neighbours {text : List Char}
    (hfirst : ∀ c, text.head? = some c → isLower c = false)
    (hchars : ∀ c ∈ text, IsNameChar c) (hchain : text.IsChain MayPrecede) : IsSequel text := by
  -- The induction is on the length: a segment is not empty, so that less is left after it.
  induction hlength : text.length using Nat.strongRecOn generalizing text with
  | ind length ih =>
    cases text with
    | nil => exact ⟨[], [], rfl, by simp, .inl rfl⟩
    | cons c rest =>
      rcases exists_segment (hfirst c rfl) hchars hchain with
        ⟨rfl, hupper⟩ | ⟨segment, sequel, htext, hsegment, hsequel⟩
      · exact ⟨[], [c], rfl, by simp, .inr ⟨c, rfl, hupper⟩⟩
      · rw [htext] at hlength hchars hchain ⊢
        have hpos : 0 < segment.length := by cases hsegment <;> simp
        have hshorter : sequel.length < length := by
          rw [← hlength, List.length_append]
          omega
        refine (ih _ hshorter hsequel (fun d hd => hchars d (List.mem_append_right _ hd)) ?_
          rfl).append hsegment
        exact hchain.right_of_append

/-- A name that is so by its neighbours can be split. -/
theorem IsLocallyCamel.isSegmented {name : List Char} (h : IsLocallyCamel name) :
    IsSegmented name := by
  have hcut : name.takeWhile isLower ++ name.dropWhile isLower = name :=
    List.takeWhile_append_dropWhile
  obtain ⟨c, hfirst, hlower⟩ := h.first
  obtain ⟨rest, rfl⟩ := List.head?_eq_some_iff.mp hfirst
  refine ⟨_, _, hcut.symm, ⟨?_, fun d hd => List.mem_takeWhile_imp hd⟩,
    isSequel_of_neighbours (fun d hd => head?_dropWhile hd) (fun d hd => ?_) ?_⟩
  · rw [List.takeWhile_cons_of_pos hlower]
    exact List.cons_ne_nil _ _
  · exact h.chars d (List.dropWhile_subset _ hd)
  · exact h.neighbours.suffix (List.dropWhile_suffix _)

/-- A name is in camel case exactly if it splits into a run of lower-case letters, segments, and at
most one upper-case letter, and exactly if it begins with a lower-case letter, holds letters and
decimal digits only, and has no forbidden neighbours. -/
theorem isCamelCase_iff_segmented_iff_local (name : String) :
    (isCamelCase name = true ↔ IsSegmented name.toList) ∧
      (IsSegmented name.toList ↔ IsLocallyCamel name.toList) := by
  have hlocal : isCamelCase name = true → IsLocallyCamel name.toList := by
    intro h
    obtain ⟨stop, hreading, hfinal⟩ := isCamelCase_iff_reading.mp h
    obtain ⟨hfirst, hchars, hchain⟩ := hreading.neighbours hfinal
    exact ⟨hfirst, hchars, hchain⟩
  have hread : IsSegmented name.toList → isCamelCase name = true :=
    fun h => isCamelCase_iff_reading.mpr h.exists_reading
  exact ⟨⟨fun h => (hlocal h).isSegmented, hread⟩, fun h => hlocal (hread h),
    IsLocallyCamel.isSegmented⟩

end Naming

end TreeLint
