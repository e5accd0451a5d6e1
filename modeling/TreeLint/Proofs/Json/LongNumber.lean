import Mathlib.Data.List.Infix
import Mathlib.Data.List.TakeWhile
import TreeLint.Json.Reader

/-!
# Where a long number is met

The reader goes through a document from front to back: what it leaves unread is always an end of
what it was given. So when it refuses a whole number for its many digits, these digits stand in the
document in one run. A document without so long a run of digits is read or has a fault.
-/

namespace TreeLint.Json

/-- A run of the given number of digits, more than a whole number may have, stands in a text. -/
def HasLongRun (digits : Nat) (text : List Char) : Prop :=
  ∃ run, run <:+: text ∧ (∀ c ∈ run, Text.isDigit c = true) ∧ run.length = digits ∧
    Text.maxDigits < digits

/-- A run of digits in an end of a text stands in the text. -/
theorem HasLongRun.of_suffix {digits : Nat} {rest text : List Char} (h : HasLongRun digits rest)
    (hrest : rest <:+ text) : HasLongRun digits text := by
  obtain ⟨run, hrun, hdigits⟩ := h
  exact ⟨run, hrun.trans hrest.isInfix, hdigits⟩

/-- What a step of the reader makes of a text: what it leaves unread is an end of the text, and a
long number that it refuses stands in it. -/
def Follows {α : Type} (text : List Char) : Except Refusal (α × List Char) → Prop
  | .ok (_, rest) => rest <:+ text
  | .error (.fault _ _) => True
  | .error (.longNumber digits) => HasLongRun digits text

/-- A step on an end of a text is a step on the text. -/
theorem Follows.of_suffix {α : Type} {rest text : List Char}
    {result : Except Refusal (α × List Char)} (h : Follows rest result) (hrest : rest <:+ text) :
    Follows text result := by
  rcases result with (_ | digits) | ⟨_, unread⟩
  · trivial
  · exact HasLongRun.of_suffix h hrest
  · exact h.trans hrest

/-- Skipping blanks leaves an end of the text. -/
theorem skipGap_suffix (text : List Char) : skipGap text <:+ text :=
  List.dropWhile_suffix _

/-! ### Texts and numbers -/

/-- Putting a unit in front leaves what follows as it was. -/
theorem follows_consUnit {text : List Char} {unit : Nat}
    {result : Except Refusal (List Nat × List Char)} (h : Follows text result) :
    Follows text (consUnit unit result) := by
  rcases result with (_ | _) | ⟨_, _⟩ <;> exact h

/-- Reading a text goes from front to back. -/
theorem follows_readUnits (opened text : List Char) : Follows text (readUnits opened text) := by
  fun_induction readUnits opened text with
  | case1 => trivial
  | case2 rest => exact List.suffix_cons _ _
  | case3 => trivial
  | case4 a b c d e rest unit _ ih =>
    refine (follows_consUnit ih).of_suffix ?_
    exact ⟨['\\', 'u', a, b, c, d], rfl⟩
  | case5 => trivial
  | case6 => trivial
  | case7 c rest letter _ _ _ ih =>
    refine (follows_consUnit ih).of_suffix ?_
    exact ⟨['\\', c], rfl⟩
  | case8 => trivial
  | case9 => trivial
  | case10 c rest _ _ _ _ _ _ ih => exact (follows_consUnit ih).of_suffix (List.suffix_cons _ _)

/-- Reading a text goes from front to back. -/
theorem follows_readText (text : List Char) : Follows text (readText text) := by
  have h := follows_readUnits text text
  unfold readText
  rcases hread : readUnits text text with e | ⟨units, rest⟩
  · rw [hread] at h
    rcases e with _ | _ <;> exact h
  · rw [hread] at h
    exact h

/-- Whole digits are cut off the front of a text. -/
theorem append_of_readWhole? {text whole rest : List Char}
    (h : readWhole? text = some (whole, rest)) :
    text = whole ++ rest ∧ ∀ c ∈ whole, Text.isDigit c = true := by
  cases text with
  | nil => cases h
  | cons c text =>
    rw [readWhole?] at h
    split_ifs at h with hzero hdigit
    · cases h
      rw [beq_iff_eq] at hzero
      refine ⟨hzero ▸ rfl, fun d hd => ?_⟩
      rw [List.mem_singleton.mp hd]
      rfl
    · cases h
      refine ⟨?_, fun d hd => ?_⟩
      · rw [List.cons_append, List.takeWhile_append_dropWhile]
      · rcases List.mem_cons.mp hd with rfl | hd
        · exact hdigit
        · exact List.mem_takeWhile_imp hd

/-- A fraction is cut off the front of a text. -/
theorem readFraction_suffix (text : List Char) : (readFraction text).2 <:+ text := by
  unfold readFraction
  split
  · dsimp only
    split
    · exact List.suffix_refl _
    · exact (List.dropWhile_suffix _).trans (List.suffix_cons _ _)
  · exact List.suffix_refl _

/-- An exponent is cut off the front of a text. -/
theorem readExponent_suffix (text : List Char) : (readExponent text).2 <:+ text := by
  unfold readExponent
  split
  · rename_i mark rest
    split
    · split
      rename_i sign body hsign
      have hbody : body <:+ rest := by
        split at hsign <;> cases hsign
        · exact List.suffix_cons _ _
        · exact List.suffix_cons _ _
        · exact List.suffix_refl _
      dsimp only
      split
      · exact List.suffix_refl _
      · exact ((List.dropWhile_suffix _).trans hbody).trans (List.suffix_cons _ _)
    · exact List.suffix_refl _
  · exact List.suffix_refl _

/-- Reading a number without its sign goes from front to back. -/
theorem follows_readMagnitude (negative : Bool) (text : List Char) :
    Follows text (readMagnitude negative text) := by
  unfold readMagnitude
  split
  · trivial
  · rename_i whole rest hwhole
    obtain ⟨rfl, hdigits⟩ := append_of_readWhole? hwhole
    have hrest : (readExponent (readFraction rest).2).2 <:+ whole ++ rest :=
      ((readExponent_suffix _).trans (readFraction_suffix rest)).trans (List.suffix_append _ _)
    dsimp only
    split
    · split
      · rename_i hlong
        exact ⟨whole, (List.prefix_append _ _).isInfix, hdigits, rfl, hlong⟩
      · exact hrest
    · exact hrest

/-- Reading a number goes from front to back. -/
theorem follows_readNumber (text : List Char) : Follows text (readNumber text) := by
  unfold readNumber
  split
  · exact ⟨['N', 'a', 'N'], rfl⟩
  · exact ⟨['I', 'n', 'f', 'i', 'n', 'i', 't', 'y'], rfl⟩
  · exact ⟨['-', 'I', 'n', 'f', 'i', 'n', 'i', 't', 'y'], rfl⟩
  · exact (follows_readMagnitude true _).of_suffix (List.suffix_cons _ _)
  · exact follows_readMagnitude false _

/-- Reading a scalar goes from front to back. -/
theorem follows_readScalar (text : List Char) : Follows text (readScalar text) := by
  unfold readScalar
  split
  · exact ⟨['n', 'u', 'l', 'l'], rfl⟩
  · exact ⟨['t', 'r', 'u', 'e'], rfl⟩
  · exact ⟨['f', 'a', 'l', 's', 'e'], rfl⟩
  · exact follows_readNumber _

/-! ### Values -/

/-- What a step has left unread is an end of its text. -/
theorem Follows.suffix {α : Type} {text rest : List Char} {item : α}
    {result : Except Refusal (α × List Char)} (h : Follows text result)
    (hok : result = .ok (item, rest)) : rest <:+ text := by
  subst hok
  exact h

/-- The refusal of a step is a refusal of the whole. -/
theorem Follows.refused {α β : Type} {text : List Char} {e : Refusal}
    {result : Except Refusal (α × List Char)} (h : Follows text result)
    (herror : result = .error e) : Follows text (.error e : Except Refusal (β × List Char)) := by
  subst herror
  cases e <;> exact h

/-- After the character behind a gap there is an end of the text. -/
theorem suffix_of_skipGap {text rest : List Char} {c : Char} (h : skipGap text = c :: rest) :
    rest <:+ text :=
  (List.suffix_cons c rest).trans (h ▸ skipGap_suffix text)

/-- Reading a value goes from front to back if reading items and fields does. -/
theorem follows_readValue_succ {fuel : Nat} (hitems : ∀ text, Follows text (readItems fuel text))
    (hfields : ∀ fields text, Follows text (readFields fuel fields text)) (text : List Char) :
    Follows text (readValue (fuel + 1) text) := by
  unfold readValue
  split
  · rename_i rest
    refine Follows.of_suffix ?_ (List.suffix_cons _ rest)
    split
    · rename_i hread
      exact (follows_readText rest).suffix hread
    · rename_i hread
      exact (follows_readText rest).refused hread
  · rename_i rest
    refine Follows.of_suffix ?_ (List.suffix_cons _ rest)
    split
    · rename_i hclosed
      exact suffix_of_skipGap hclosed
    · refine Follows.of_suffix ?_ (skipGap_suffix rest)
      split
      · rename_i hread
        exact (hitems _).suffix hread
      · rename_i hread
        exact (hitems _).refused hread
  · rename_i rest
    refine Follows.of_suffix ?_ (List.suffix_cons _ rest)
    split
    · rename_i hclosed
      exact suffix_of_skipGap hclosed
    · refine Follows.of_suffix ?_ (skipGap_suffix rest)
      split
      · rename_i hread
        exact (hfields _ _).suffix hread
      · rename_i hread
        exact (hfields _ _).refused hread
  · exact follows_readScalar _

/-- Reading items goes from front to back if reading the first and the others does. -/
theorem follows_readItems_succ {fuel : Nat} (hvalue : ∀ text, Follows text (readValue fuel text))
    (hitems : ∀ text, Follows text (readItems fuel text)) (text : List Char) :
    Follows text (readItems (fuel + 1) text) := by
  unfold readItems
  split
  · rename_i hread
    exact (hvalue text).refused hread
  · rename_i item rest hread
    refine Follows.of_suffix ?_ ((hvalue text).suffix hread)
    split
    · rename_i hgap
      exact suffix_of_skipGap hgap
    · rename_i more hgap
      refine Follows.of_suffix ?_ ((skipGap_suffix more).trans (suffix_of_skipGap hgap))
      split
      · rename_i hmore
        exact (hitems _).suffix hmore
      · rename_i hmore
        exact (hitems _).refused hmore
    · trivial

/-- Reading fields goes from front to back if reading the first value and the other fields does. -/
theorem follows_readFields_succ {fuel : Nat} (hvalue : ∀ text, Follows text (readValue fuel text))
    (hfields : ∀ fields text, Follows text (readFields fuel fields text))
    (fields : List (String × Json)) (text : List Char) :
    Follows text (readFields (fuel + 1) fields text) := by
  unfold readFields
  split
  · rename_i rest
    refine Follows.of_suffix ?_ (List.suffix_cons _ rest)
    split
    · rename_i hread
      exact (follows_readText rest).refused hread
    · rename_i key rest' hread
      refine Follows.of_suffix ?_ ((follows_readText rest).suffix hread)
      split
      · rename_i body hgap
        refine Follows.of_suffix ?_ ((skipGap_suffix body).trans (suffix_of_skipGap hgap))
        split
        · rename_i hread
          exact (hvalue _).refused hread
        · rename_i value more hread
          refine Follows.of_suffix ?_ ((hvalue _).suffix hread)
          dsimp only
          split
          · rename_i hgap
            exact suffix_of_skipGap hgap
          · rename_i next hgap
            exact (hfields _ _).of_suffix ((skipGap_suffix next).trans (suffix_of_skipGap hgap))
          · trivial
      · trivial
  · trivial

/-- Reading goes from front to back, whatever the bound on the steps. -/
theorem follows_read (fuel : Nat) :
    (∀ text, Follows text (readValue fuel text)) ∧
    (∀ text, Follows text (readItems fuel text)) ∧
    (∀ fields text, Follows text (readFields fuel fields text)) := by
  -- The three readers call each other with one step less, so they go through one induction.
  induction fuel with
  | zero => exact ⟨fun _ => trivial, fun _ => trivial, fun _ _ => trivial⟩
  | succ fuel ih =>
    obtain ⟨hvalue, hitems, hfields⟩ := ih
    exact ⟨follows_readValue_succ hitems hfields, follows_readItems_succ hvalue hitems,
      follows_readFields_succ hvalue hfields⟩

/-- A number for which a document is refused stands in it with its many digits. -/
theorem hasLongRun_of_readDocument {text : List Char} {digits : Nat}
    (h : readDocument text = .error (.longNumber digits)) : HasLongRun digits text := by
  unfold readDocument at h
  split at h
  · cases h
  · split at h
    · rename_i e hread
      cases h
      exact HasLongRun.of_suffix
        (((follows_read _).1 _).refused (β := Json) hread) (skipGap_suffix text)
    · split at h <;> cases h

end TreeLint.Json
