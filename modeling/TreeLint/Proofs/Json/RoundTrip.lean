import TreeLint.Proofs.Json.Escape
import TreeLint.Proofs.Json.Number

/-!
# Written values are read back

A value whose whole numbers are not too long, whose objects name each key once, and in which no
number has a fraction or an exponent, is read back from what is written for it. The statement for
one value leaves open what follows it, as long as that cannot continue a number, and asks for as
many steps as characters were written. In the layout of one line nothing but printable ASCII is
written; the indented layout adds line feeds.
-/

namespace TreeLint.Json

/-- Values that are read back as they were written. -/
inductive Plain : Json → Prop
  | null : Plain .null
  | bool (b : Bool) : Plain (.bool b)
  | int {n : Int} (h : n.natAbs < numberBound) : Plain (.int n)
  | str (s : String) : Plain (.str s)
  | arr {items : List Json} (h : ∀ item ∈ items, Plain item) : Plain (.arr items)
  | obj {fields : List (String × Json)} (hkeys : (Table.keys fields).Nodup)
      (h : ∀ field ∈ fields, Plain field.2) : Plain (.obj fields)

/-! ### One step of the reader -/

/-- A list whose first item is at hand is read item by item. -/
theorem readValue_list {fuel : Nat} {gap text rest : List Char} {c : Char} {items : List Json}
    (hgap : Gap gap) (hc : isGap c = false) (hopen : c ≠ ']')
    (hitems : readItems fuel (c :: text) = .ok (items, rest)) :
    readValue (fuel + 1) ('[' :: (gap ++ c :: text)) = .ok (.arr items, rest) := by
  simp [readValue, skipGap_append hgap, skipGap_cons hc, hopen, hitems]

/-- An object whose first key is at hand is read field by field. -/
theorem readValue_object {fuel : Nat} {gap text rest : List Char}
    {fields : List (String × Json)} (hgap : Gap gap)
    (hfields : readFields fuel [] ('"' :: text) = .ok (fields, rest)) :
    readValue (fuel + 1) ('{' :: (gap ++ '"' :: text)) = .ok (.obj fields, rest) := by
  have hquote : isGap '"' = false := rfl
  simp [readValue, skipGap_append hgap, skipGap_cons hquote, hfields]

/-- An item before the closing bracket is the last one. -/
theorem readItems_last {fuel : Nat} {text gap rest : List Char} {item : Json} (hgap : Gap gap)
    (hitem : readValue fuel text = .ok (item, gap ++ ']' :: rest)) :
    readItems (fuel + 1) text = .ok ([item], rest) := by
  have hclosing : isGap ']' = false := rfl
  simp [readItems, hitem, skipGap_append hgap, skipGap_cons hclosing]

/-- An item before a comma is followed by more items. -/
theorem readItems_more {fuel : Nat} {text gap more rest : List Char} {c : Char} {item : Json}
    {items : List Json} (hgap : Gap gap) (hc : isGap c = false)
    (hitem : readValue fuel text = .ok (item, ',' :: (gap ++ c :: more)))
    (hitems : readItems fuel (c :: more) = .ok (items, rest)) :
    readItems (fuel + 1) text = .ok (item :: items, rest) := by
  have hcomma : isGap ',' = false := rfl
  simp [readItems, hitem, skipGap_append hgap, skipGap_cons hc, skipGap_cons hcomma, hitems]

/-- A field before the closing brace is the last one. -/
theorem readFields_last {fuel : Nat} {before : List (String × Json)} {key : String} {value : Json}
    {c : Char} {text gap rest : List Char} (hgap : Gap gap) (hc : isGap c = false)
    (hvalue : readValue fuel (c :: text) = .ok (value, gap ++ '}' :: rest)) :
    readFields (fuel + 1) before (writeText key ++ ':' :: ' ' :: c :: text) =
      .ok (Table.set before key value, rest) := by
  have hclosing : isGap '}' = false := rfl
  have hcolon : isGap ':' = false := rfl
  have hspace : skipGap (' ' :: c :: text) = c :: text := skipGap_cons hc text
  simp [writeText, readFields, readText_writeText, skipGap_cons hcolon, hspace, hvalue,
    skipGap_append hgap, skipGap_cons hclosing]

/-- A field before a comma is followed by more fields. -/
theorem readFields_more {fuel : Nat} {before fields : List (String × Json)} {key : String}
    {value : Json} {c : Char} {text gap more rest : List Char} (hgap : Gap gap)
    (hc : isGap c = false)
    (hvalue : readValue fuel (c :: text) = .ok (value, ',' :: (gap ++ '"' :: more)))
    (hfields : readFields fuel (Table.set before key value) ('"' :: more) = .ok (fields, rest)) :
    readFields (fuel + 1) before (writeText key ++ ':' :: ' ' :: c :: text) =
      .ok (fields, rest) := by
  have hcomma : isGap ',' = false := rfl
  have hquote : isGap '"' = false := rfl
  have hcolon : isGap ':' = false := rfl
  have hspace : skipGap (' ' :: c :: text) = c :: text := skipGap_cons hc text
  simp [writeText, readFields, readText_writeText, skipGap_cons hcolon, hspace, hvalue,
    skipGap_append hgap, skipGap_cons hcomma, skipGap_cons hquote, hfields]

/-! ### Values -/

/-- A written whole number begins with a sign or a digit. -/
theorem exists_head_writeInt (n : Int) :
    ∃ c text, writeInt n = c :: text ∧ (c = '-' ∨ Text.isDigit c = true) := by
  cases n with
  | ofNat n =>
    obtain ⟨c, digits, hdigits⟩ :=
      List.exists_cons_of_ne_nil (Nat.toDigits_ne_nil (n := n) (b := 10))
    exact ⟨c, digits, hdigits, .inr (isDigit_of_mem_toDigits (hdigits ▸ List.mem_cons_self))⟩
  | negSucc n => exact ⟨'-', _, rfl, .inl rfl⟩

/-- A written value begins with neither a blank nor a closing bracket. -/
theorem Plain.exists_head {json : Json} (h : Plain json) (layout : Layout) (depth : Nat) :
    ∃ c text, writeAt layout depth json = c :: text ∧ isGap c = false ∧ c ≠ ']' := by
  cases h with
  | null => exact ⟨_, _, rfl, rfl, by decide⟩
  | bool b => cases b <;> exact ⟨_, _, rfl, rfl, by decide⟩
  | @int n h =>
    obtain ⟨c, text, htext, hc⟩ := exists_head_writeInt n
    refine ⟨c, text, htext, ?_, ?_⟩
    · simp only [isGap, Bool.or_eq_false_iff, beq_eq_false_iff_ne]
      refine ⟨⟨⟨?_, ?_⟩, ?_⟩, ?_⟩ <;> rintro rfl <;> simp [Text.isDigit] at hc
    · rintro rfl
      simp [Text.isDigit] at hc
  | str s => exact ⟨_, _, rfl, rfl, by decide⟩
  | @arr items h => cases items <;> exact ⟨_, _, rfl, rfl, by decide⟩
  | @obj fields hkeys h => cases fields <;> exact ⟨_, _, rfl, rfl, by decide⟩

/-- A value is read back from what is written for it, at any depth and before anything that ends a
value, with as many steps as characters were written. -/
def ReadsBack (layout : Layout) (json : Json) : Prop :=
  ∀ depth fuel rest, (writeAt layout depth json).length ≤ fuel → Ends rest →
    readValue fuel (writeAt layout depth json ++ rest) = .ok (json, rest)

/-- A value that begins with a character of no other kind is read as a scalar. -/
theorem readValue_scalar {fuel : Nat} {c : Char} (hquote : c ≠ '"') (hlist : c ≠ '[')
    (hobject : c ≠ '{') (text : List Char) :
    readValue (fuel + 1) (c :: text) = readScalar (c :: text) := by
  simp [readValue, hquote, hlist, hobject]

/-- Items that are each read back are read back as a list, up to its closing bracket. -/
theorem readItems_write {layout : Layout} {depth : Nat} {gap : List Char} (hgap : Gap gap)
    {items : List Json} (hplain : ∀ item ∈ items, Plain item)
    (h : ∀ item ∈ items, ReadsBack layout item) (rest : List Char) {item : Json}
    (hitem : ReadsBack layout item) {fuel : Nat}
    (hfuel : (writeAt layout depth item ++ writeItems layout depth items).length < fuel) :
    readItems fuel (writeAt layout depth item ++ (writeItems layout depth items ++
      (gap ++ ']' :: rest))) = .ok (item :: items, rest) := by
  induction items generalizing item fuel with
  | nil =>
    cases fuel with
    | zero => simp at hfuel
    | succ fuel =>
      rw [writeItems, List.append_nil] at hfuel
      exact readItems_last hgap (hitem depth fuel _ (by omega) (ends_closing hgap (.inl rfl) rest))
  | cons next items ih =>
    cases fuel with
    | zero => simp at hfuel
    | succ fuel =>
      obtain ⟨space, hspace, hseparator⟩ := separator_eq layout depth
      obtain ⟨c, text, htext, hc, _⟩ :=
        (hplain next List.mem_cons_self).exists_head layout depth
      simp only [writeItems, hseparator, List.length_append, List.length_cons] at hfuel
      have hless : (writeAt layout depth next ++ writeItems layout depth items).length < fuel := by
        rw [List.length_append]
        omega
      have hnext := ih (fun item hmem => hplain item (List.mem_cons_of_mem next hmem))
        (fun item hmem => h item (List.mem_cons_of_mem next hmem)) (h next List.mem_cons_self) hless
      rw [htext, List.cons_append] at hnext
      refine readItems_more hspace hc ?_ hnext
      rw [hitem depth fuel _ (by omega) (fun first hfirst => ?_)]
      · simp [writeItems, hseparator, htext]
      · simp [writeItems, hseparator] at hfirst
        subst hfirst
        rfl

/-- A key that is named once does not stand among the fields before it. -/
theorem not_mem_keys_of_nodup {before fields : List (String × Json)} {key : String} {value : Json}
    (h : (Table.keys (before ++ (key, value) :: fields)).Nodup) : key ∉ Table.keys before := by
  intro hmem
  rw [Table.keys, List.map_append, List.nodup_append] at h
  exact h.2.2 key hmem key List.mem_cons_self rfl

/-- Fields whose values are each read back are read back as an object, up to its closing brace,
behind the fields with other keys that were read before. -/
theorem readFields_write {layout : Layout} {depth : Nat} {gap : List Char} (hgap : Gap gap)
    {fields : List (String × Json)} (hplain : ∀ field ∈ fields, Plain field.2)
    (h : ∀ field ∈ fields, ReadsBack layout field.2) (rest : List Char)
    {before : List (String × Json)} {key : String} {value : Json}
    (hkeys : (Table.keys (before ++ (key, value) :: fields)).Nodup)
    (hvaluePlain : Plain value) (hvalue : ReadsBack layout value) {fuel : Nat}
    (hfuel : (writeAt layout depth value ++ writeFields layout depth fields).length < fuel) :
    readFields fuel before (writeText key ++ ':' :: ' ' :: (writeAt layout depth value ++
      (writeFields layout depth fields ++ (gap ++ '}' :: rest)))) =
      .ok (before ++ (key, value) :: fields, rest) := by
  induction fields generalizing before key value fuel with
  | nil =>
    cases fuel with
    | zero => simp at hfuel
    | succ fuel =>
      obtain ⟨c, text, htext, hc, _⟩ := hvaluePlain.exists_head layout depth
      rw [writeFields, List.append_nil] at hfuel
      have hread := hvalue depth fuel _ (by omega) (ends_closing hgap (.inr rfl) rest)
      rw [htext, List.cons_append] at hread
      rw [← Table.set_of_not_mem_keys value (not_mem_keys_of_nodup hkeys), htext]
      exact readFields_last hgap hc hread
  | cons next fields ih =>
    cases fuel with
    | zero => simp at hfuel
    | succ fuel =>
      obtain ⟨nextKey, nextValue⟩ := next
      obtain ⟨space, hspace, hseparator⟩ := separator_eq layout depth
      obtain ⟨c, text, htext, hc, _⟩ := hvaluePlain.exists_head layout depth
      simp only [writeFields, hseparator, List.length_append, List.length_cons] at hfuel
      have hsplit : before ++ (key, value) :: (nextKey, nextValue) :: fields =
          Table.set before key value ++ (nextKey, nextValue) :: fields := by
        rw [Table.set_of_not_mem_keys value (not_mem_keys_of_nodup hkeys), List.append_assoc]
        rfl
      rw [hsplit] at hkeys ⊢
      have hless :
          (writeAt layout depth nextValue ++ writeFields layout depth fields).length < fuel := by
        rw [List.length_append]
        omega
      have hnext := ih (fun field hmem => hplain field (List.mem_cons_of_mem _ hmem))
        (fun field hmem => h field (List.mem_cons_of_mem _ hmem)) hkeys
        (hplain _ List.mem_cons_self) (h _ List.mem_cons_self) hless
      have hread := hvalue depth fuel (writeFields layout depth ((nextKey, nextValue) :: fields) ++
        (gap ++ '}' :: rest)) (by omega) (fun first hfirst => ?_)
      · rw [htext, List.cons_append] at hread ⊢
        refine readFields_more hspace hc (hread.trans ?_) hnext
        simp [writeFields, hseparator, writeText]
      · simp only [writeFields, hseparator, List.cons_append, List.head?_cons,
          Option.mem_some] at hfirst
        subst hfirst
        rfl

/-- Every plain value is read back from what is written for it. -/
theorem Plain.readsBack {json : Json} (h : Plain json) (layout : Layout) :
    ReadsBack layout json := by
  induction h with
  | null =>
    intro depth fuel rest hfuel hrest
    cases fuel with
    | zero => simp [writeAt] at hfuel
    | succ fuel => simp [writeAt, readValue, readScalar]
  | bool b =>
    intro depth fuel rest hfuel hrest
    cases fuel with
    | zero => cases b <;> simp [writeAt] at hfuel
    | succ fuel => cases b <;> simp [writeAt, readValue, readScalar]
  | @int n h =>
    intro depth fuel rest hfuel hrest
    obtain ⟨c, text, htext, hc⟩ := exists_head_writeInt n
    have hscalar := readScalar_writeInt h hrest
    rw [writeAt, htext] at hfuel ⊢
    rw [htext] at hscalar
    cases fuel with
    | zero => simp at hfuel
    | succ fuel =>
      have hne : ∀ letter, letter ≠ '-' → Text.isDigit letter = false → c ≠ letter := by
        rintro letter hminus hdigit rfl
        simp [hminus, hdigit] at hc
      exact (readValue_scalar (hne '"' (by decide) rfl) (hne '[' (by decide) rfl)
        (hne '{' (by decide) rfl) _).trans hscalar
  | str s =>
    intro depth fuel rest hfuel hrest
    cases fuel with
    | zero => simp [writeAt, writeText] at hfuel
    | succ fuel => simp [writeAt, writeText, readValue, readText_writeText]
  | @arr items hitems ih =>
    intro depth fuel rest hfuel hrest
    cases fuel with
    | zero => cases items <;> simp [writeAt] at hfuel
    | succ fuel =>
      cases items with
      | nil =>
        have hclosing : isGap ']' = false := rfl
        simp [writeAt, readValue, skipGap_cons hclosing]
      | cons item items =>
        obtain ⟨c, text, htext, hc, hopen⟩ :=
          (hitems item List.mem_cons_self).exists_head layout (depth + 1)
        simp only [writeAt, List.length_append, List.length_cons] at hfuel
        have hless : (writeAt layout (depth + 1) item ++
            writeItems layout (depth + 1) items).length < fuel := by
          rw [List.length_append]
          omega
        have hread := readItems_write (gap_lineBreak layout depth)
          (fun next hmem => hitems next (List.mem_cons_of_mem item hmem))
          (fun next hmem => ih next (List.mem_cons_of_mem item hmem)) rest
          (ih item List.mem_cons_self) hless
        rw [htext, List.cons_append] at hread
        have hlist := readValue_list (gap_lineBreak layout (depth + 1)) hc hopen hread
        simpa [writeAt, htext] using hlist
  | @obj fields hkeys hfields ih =>
    intro depth fuel rest hfuel hrest
    cases fuel with
    | zero => cases fields <;> simp [writeAt] at hfuel
    | succ fuel =>
      cases fields with
      | nil =>
        have hclosing : isGap '}' = false := rfl
        simp [writeAt, readValue, skipGap_cons hclosing]
      | cons field fields =>
        obtain ⟨key, value⟩ := field
        simp only [writeAt, List.length_append, List.length_cons] at hfuel
        have hless : (writeAt layout (depth + 1) value ++
            writeFields layout (depth + 1) fields).length < fuel := by
          rw [List.length_append]
          omega
        have hall : (Table.keys ([] ++ (key, value) :: fields)).Nodup := hkeys
        have hread := readFields_write (gap_lineBreak layout depth)
          (fun next hmem => hfields next (List.mem_cons_of_mem _ hmem))
          (fun next hmem => ih next (List.mem_cons_of_mem _ hmem)) rest hall
          (hfields _ List.mem_cons_self) (ih _ List.mem_cons_self) hless
        have hobject := readValue_object (gap_lineBreak layout (depth + 1)) hread
        simpa [writeAt, writeText] using hobject

/-! ### Characters -/

/-- The printable part of ASCII. -/
def IsPrintable (c : Char) : Prop :=
  0x20 ≤ c.toNat ∧ c.toNat < 0x7f

instance : DecidablePred IsPrintable := fun _ => inferInstanceAs (Decidable (_ ∧ _))

/-- The characters of a layout: the printable part of ASCII, and line feeds if it has any. -/
def Layout.Uses (layout : Layout) (c : Char) : Prop :=
  IsPrintable c ∨ layout ≠ .oneLine ∧ c = '\n'

/-- A hexadecimal digit is printable. -/
theorem isPrintable_digitChar {d : Nat} (h : d < 16) : IsPrintable d.digitChar := by
  have hall : ∀ d : Fin 16, IsPrintable d.val.digitChar := by decide
  exact hall ⟨d, h⟩

/-- An escaped code unit is written in printable characters. -/
theorem isPrintable_of_mem_escapeUnit {unit : Nat} (h : unit < 0x10000) {c : Char}
    (hc : c ∈ escapeUnit unit) : IsPrintable c := by
  rw [escapeUnit, hexDigits_four h] at hc
  simp only [List.mem_cons, List.not_mem_nil, or_false] at hc
  rcases hc with rfl | rfl | rfl | rfl | rfl | rfl
  · decide
  · decide
  all_goals
    apply isPrintable_digitChar
    omega

/-- A character of a text is written in printable characters. -/
theorem isPrintable_of_mem_escapeChar {d c : Char} (hc : c ∈ escapeChar d) : IsPrintable c := by
  have hlast : d.toNat < 0x110000 := toNat_lt_last d
  have hletter : ∀ letter, IsPrintable letter → c ∈ ['\\', letter] → IsPrintable c := by
    intro letter hprintable hmem
    rcases List.mem_cons.mp hmem with rfl | hmem
    · decide
    · exact List.mem_singleton.mp hmem ▸ hprintable
  unfold escapeChar at hc
  split_ifs at hc with h₁ h₂ h₃ h₄ h₅ h₆ h₇ hprintable hsmall
  iterate 7 exact hletter _ (by decide) hc
  · rw [List.mem_singleton.mp hc]
    simpa [IsPrintable] using hprintable
  · exact isPrintable_of_mem_escapeUnit hsmall hc
  · rcases List.mem_append.mp hc with hc | hc
    · exact isPrintable_of_mem_escapeUnit (by omega) hc
    · exact isPrintable_of_mem_escapeUnit (by omega) hc

/-- A text is written in printable characters. -/
theorem isPrintable_of_mem_writeText {s : String} {c : Char} (hc : c ∈ writeText s) :
    IsPrintable c := by
  simp only [writeText, List.mem_append, List.mem_cons, List.not_mem_nil, or_false,
    List.mem_flatMap] at hc
  rcases hc with (rfl | ⟨d, _, hc⟩) | rfl
  · decide
  · exact isPrintable_of_mem_escapeChar hc
  · decide

/-- A whole number is written in printable characters. -/
theorem isPrintable_of_mem_writeInt {n : Int} {c : Char} (hc : c ∈ writeInt n) :
    IsPrintable c := by
  have hdigit : ∀ {n : Nat}, c ∈ Nat.toDigits 10 n → IsPrintable c := by
    intro n hmem
    have hrange := isDigit_of_mem_toDigits hmem
    simp only [Text.isDigit, Bool.and_eq_true, decide_eq_true_eq, Char.le_def,
      UInt32.le_iff_toNat_le] at hrange
    have hlow : '0'.val.toNat = 0x30 := rfl
    have hhigh : '9'.val.toNat = 0x39 := rfl
    have hvalue : c.toNat = c.val.toNat := rfl
    unfold IsPrintable
    omega
  cases n with
  | ofNat n => exact hdigit hc
  | negSucc n =>
    rcases List.mem_cons.mp hc with rfl | hc
    · decide
    · exact hdigit hc

/-- A line break is made of characters of its layout. -/
theorem Layout.uses_of_mem_lineBreak {layout : Layout} {depth : Nat} {c : Char}
    (hc : c ∈ layout.lineBreak depth) : layout.Uses c := by
  cases layout with
  | oneLine => cases hc
  | indented width =>
    rcases List.mem_cons.mp hc with rfl | hc
    · exact .inr ⟨nofun, rfl⟩
    · rw [List.eq_of_mem_replicate hc]
      exact .inl (by decide)

/-- What divides two items is made of characters of its layout. -/
theorem Layout.uses_of_mem_separator {layout : Layout} {depth : Nat} {c : Char}
    (hc : c ∈ layout.separator depth) : layout.Uses c := by
  cases layout with
  | oneLine =>
    have hall : ∀ c ∈ [',', ' '], IsPrintable c := by simp [IsPrintable]
    exact .inl (hall c hc)
  | indented width =>
    rcases List.mem_cons.mp hc with rfl | hc
    · exact .inl (by decide)
    · exact uses_of_mem_lineBreak hc

/-- Items are written in characters of the layout if each of them is. -/
theorem uses_of_mem_writeItems {layout : Layout} {depth : Nat} {items : List Json}
    (h : ∀ item ∈ items, ∀ c ∈ writeAt layout depth item, layout.Uses c) {c : Char}
    (hc : c ∈ writeItems layout depth items) : layout.Uses c := by
  induction items with
  | nil => cases hc
  | cons item items ih =>
    simp only [writeItems, List.mem_append] at hc
    rcases hc with (hc | hc) | hc
    · exact Layout.uses_of_mem_separator hc
    · exact h item List.mem_cons_self c hc
    · exact ih (fun next hmem => h next (List.mem_cons_of_mem item hmem)) hc

/-- Fields are written in characters of the layout if each of their values is. -/
theorem uses_of_mem_writeFields {layout : Layout} {depth : Nat} {fields : List (String × Json)}
    (h : ∀ field ∈ fields, ∀ c ∈ writeAt layout depth field.2, layout.Uses c) {c : Char}
    (hc : c ∈ writeFields layout depth fields) : layout.Uses c := by
  induction fields with
  | nil => cases hc
  | cons field fields ih =>
    have hcolon : ∀ c ∈ [':', ' '], IsPrintable c := by simp [IsPrintable]
    simp only [writeFields, List.mem_append] at hc
    rcases hc with (((hc | hc) | hc) | hc) | hc
    · exact Layout.uses_of_mem_separator hc
    · exact .inl (isPrintable_of_mem_writeText hc)
    · exact .inl (hcolon c hc)
    · exact h field List.mem_cons_self c hc
    · exact ih (fun next hmem => h next (List.mem_cons_of_mem field hmem)) hc

/-- A plain value is written in characters of the layout. -/
theorem Plain.uses_of_mem_writeAt {json : Json} (h : Plain json) {layout : Layout} {depth : Nat}
    {c : Char} (hc : c ∈ writeAt layout depth json) : layout.Uses c := by
  induction h generalizing depth c with
  | null =>
    have hall : ∀ c ∈ ['n', 'u', 'l', 'l'], IsPrintable c := by simp [IsPrintable]
    exact .inl (hall c hc)
  | bool b =>
    have hall : ∀ c ∈ ['t', 'r', 'u', 'e'] ++ ['f', 'a', 'l', 's', 'e'], IsPrintable c := by
      simp [IsPrintable]
    cases b with
    | true => exact .inl (hall c (List.mem_append_left _ hc))
    | false => exact .inl (hall c (List.mem_append_right _ hc))
  | int _ => exact .inl (isPrintable_of_mem_writeInt hc)
  | str s => exact .inl (isPrintable_of_mem_writeText hc)
  | @arr items _ ih =>
    have hall : ∀ c ∈ ['[', ']'], IsPrintable c := by simp [IsPrintable]
    cases items with
    | nil => exact .inl (hall c hc)
    | cons item items =>
      simp only [writeAt, List.mem_append, List.mem_cons, List.not_mem_nil, or_false] at hc
      rcases hc with ((((rfl | hc) | hc) | hc) | hc) | rfl
      · exact .inl (by decide)
      · exact Layout.uses_of_mem_lineBreak hc
      · exact ih item List.mem_cons_self hc
      · exact uses_of_mem_writeItems
          (fun next hmem c hc => ih next (List.mem_cons_of_mem item hmem) hc) hc
      · exact Layout.uses_of_mem_lineBreak hc
      · exact .inl (by decide)
  | @obj fields _ _ ih =>
    have hall : ∀ c ∈ ['{', '}'], IsPrintable c := by simp [IsPrintable]
    cases fields with
    | nil => exact .inl (hall c hc)
    | cons field fields =>
      simp only [writeAt, List.mem_append, List.mem_cons, List.not_mem_nil, or_false] at hc
      rcases hc with ((((((rfl | hc) | hc) | hc) | hc) | hc) | hc) | rfl
      · exact .inl (by decide)
      · exact Layout.uses_of_mem_lineBreak hc
      · exact .inl (isPrintable_of_mem_writeText hc)
      · rcases hc with rfl | rfl <;> exact .inl (by decide)
      · exact ih field List.mem_cons_self hc
      · exact uses_of_mem_writeFields
          (fun next hmem c hc => ih next (List.mem_cons_of_mem field hmem) hc) hc
      · exact Layout.uses_of_mem_lineBreak hc
      · exact .inl (by decide)

/-! ### Documents -/

/-- A written document is read back, also with blanks after it. -/
theorem Plain.readDocument_writeAt {json : Json} (h : Plain json) (layout : Layout)
    {gap : List Char} (hgap : Gap gap) :
    readDocument (writeAt layout 0 json ++ gap) = .ok json := by
  obtain ⟨c, text, htext, hc, _⟩ := h.exists_head layout 0
  have hmark : c ≠ '\ufeff' := by
    have huses := h.uses_of_mem_writeAt (htext ▸ List.mem_cons_self : c ∈ writeAt layout 0 json)
    rintro rfl
    rcases huses with huses | huses
    · exact absurd huses (by decide)
    · exact absurd huses.2 (by decide)
  have hread := h.readsBack layout 0 (2 * (writeAt layout 0 json ++ gap).length + 2) gap
    (by simp only [List.length_append]; omega) (ends_gap hgap)
  have hrest : skipGap gap = [] := List.dropWhile_eq_nil_iff.mpr hgap
  rw [htext, List.cons_append] at hread ⊢
  simp only [List.length_cons, List.length_append] at hread
  simp [readDocument, hmark, skipGap_cons hc, hread, hrest]

/-- A document is read back from its text. -/
theorem Plain.read_write {json : Json} (h : Plain json) (layout : Layout) :
    read (json.write layout) = .ok json := by
  have hread := h.readDocument_writeAt layout (nofun : Gap [])
  rw [List.append_nil] at hread
  rw [read, write, String.toList_ofList, hread]
  rfl

/-- A document is read back from its text with a line feed after it. -/
theorem Plain.read_write_line {json : Json} (h : Plain json) (layout : Layout) :
    read (json.write layout ++ "\n") = .ok json := by
  have hgap : Gap ['\n'] := fun c hc => List.mem_singleton.mp hc ▸ rfl
  have hread := h.readDocument_writeAt layout hgap
  rw [read, write, String.toList_append, String.toList_ofList]
  exact congrArg _ hread

/-- The text of a document is made of characters of its layout. -/
theorem Plain.uses_of_mem_write {json : Json} (h : Plain json) {layout : Layout} {c : Char}
    (hc : c ∈ (json.write layout).toList) : layout.Uses c := by
  rw [write, String.toList_ofList] at hc
  exact h.uses_of_mem_writeAt hc

end TreeLint.Json
