import Mathlib.Data.List.Basic
import TreeLint.Text.Utf8

/-!
# Bytes that can be read as text

The machine that reads bytes accepts exactly the UTF-8 encodings of texts, and gives back the text
that was encoded. A character is treated by the number of its bytes: the bytes of its encoding take
the machine back between two characters with that character, and bytes that do so are the encoding
of what they give.
-/

namespace TreeLint.Text

/-- The UTF-8 encoding of a text. -/
def utf8 (text : List Char) : List UInt8 :=
  text.flatMap String.utf8EncodeChar

/-! ### Characters by the number of their bytes -/

/-- A first byte and the byte after it, for a character of two bytes. -/
structure Two (lead b : UInt8) : Prop where
  lead_range : 0xc2 ≤ lead.toNat ∧ lead.toNat < 0xe0
  second_range : 0x80 ≤ b.toNat ∧ b.toNat ≤ 0xbf

/-- A first byte and the bytes after it, for a character of three bytes. -/
structure Three (lead b c : UInt8) : Prop where
  lead_range : 0xe0 ≤ lead.toNat ∧ lead.toNat < 0xf0
  second_range : 0x80 ≤ b.toNat ∧ b.toNat ≤ 0xbf
  not_overlong : lead.toNat = 0xe0 → 0xa0 ≤ b.toNat
  not_surrogate : lead.toNat = 0xed → b.toNat ≤ 0x9f
  third_range : 0x80 ≤ c.toNat ∧ c.toNat ≤ 0xbf

/-- A first byte and the bytes after it, for a character of four bytes. -/
structure Four (lead b c d : UInt8) : Prop where
  lead_range : 0xf0 ≤ lead.toNat ∧ lead.toNat < 0xf5
  second_range : 0x80 ≤ b.toNat ∧ b.toNat ≤ 0xbf
  not_overlong : lead.toNat = 0xf0 → 0x90 ≤ b.toNat
  not_beyond : lead.toNat = 0xf4 → b.toNat ≤ 0x8f
  third_range : 0x80 ≤ c.toNat ∧ c.toNat ≤ 0xbf
  fourth_range : 0x80 ≤ d.toNat ∧ d.toNat ≤ 0xbf

variable {offset : Nat} {lead b c d : UInt8} {rest : List UInt8}

/-- What the first of two bytes begins. -/
theorem ofLead?_two (h : 0xc2 ≤ lead.toNat ∧ lead.toNat < 0xe0) :
    Pending.ofLead? lead.toNat = some ⟨lead.toNat, 1, 1, 0x80, 0xbf, lead.toNat % 0x20⟩ := by
  rw [Pending.ofLead?, if_neg (by omega), if_pos (by omega)]

/-- What the first of three bytes begins. -/
theorem ofLead?_three (h : 0xe0 ≤ lead.toNat ∧ lead.toNat < 0xf0) :
    Pending.ofLead? lead.toNat = some ⟨lead.toNat, 1, 2,
      if lead.toNat = 0xe0 then 0xa0 else 0x80, if lead.toNat = 0xed then 0x9f else 0xbf,
      lead.toNat % 0x10⟩ := by
  rw [Pending.ofLead?, if_neg (by omega), if_neg (by omega), if_pos (by omega)]

/-- What the first of four bytes begins. -/
theorem ofLead?_four (h : 0xf0 ≤ lead.toNat ∧ lead.toNat < 0xf5) :
    Pending.ofLead? lead.toNat = some ⟨lead.toNat, 1, 3,
      if lead.toNat = 0xf0 then 0x90 else 0x80, if lead.toNat = 0xf4 then 0x8f else 0xbf,
      lead.toNat % 0x08⟩ := by
  rw [Pending.ofLead?, if_neg (by omega), if_neg (by omega), if_neg (by omega), if_pos (by omega)]

/-- Two bytes are read as the character of their bits. -/
theorem Two.decodeFrom_eq (h : Two lead b) :
    decodeFrom offset none (lead :: b :: rest) =
      consChar (Char.ofNat (lead.toNat % 0x20 * 0x40 + b.toNat % 0x40))
        (decodeFrom (offset + 1 + 1) none rest) := by
  obtain ⟨hlead, hb⟩ := h
  have hstart : ¬ lead.toNat < 0x80 := by omega
  simp [decodeFrom, hstart, ofLead?_two hlead, hb, Pending.push]

/-- Three bytes are read as the character of their bits. -/
theorem Three.decodeFrom_eq (h : Three lead b c) :
    decodeFrom offset none (lead :: b :: c :: rest) =
      consChar (Char.ofNat ((lead.toNat % 0x10 * 0x40 + b.toNat % 0x40) * 0x40 + c.toNat % 0x40))
        (decodeFrom (offset + 1 + 1 + 1) none rest) := by
  obtain ⟨hlead, hb, hlong, hhalf, hc⟩ := h
  have hstart : ¬ lead.toNat < 0x80 := by omega
  have hsecond : (if lead.toNat = 0xe0 then 0xa0 else 0x80) ≤ b.toNat ∧
      b.toNat ≤ if lead.toNat = 0xed then 0x9f else 0xbf := by
    split_ifs <;> omega
  simp [decodeFrom, hstart, ofLead?_three hlead, hsecond, hc, Pending.push]

/-- Four bytes are read as the character of their bits. -/
theorem Four.decodeFrom_eq (h : Four lead b c d) :
    decodeFrom offset none (lead :: b :: c :: d :: rest) =
      consChar (Char.ofNat (((lead.toNat % 0x08 * 0x40 + b.toNat % 0x40) * 0x40 +
        c.toNat % 0x40) * 0x40 + d.toNat % 0x40))
        (decodeFrom (offset + 1 + 1 + 1 + 1) none rest) := by
  obtain ⟨hlead, hb, hlong, hbeyond, hc, hd⟩ := h
  have hstart : ¬ lead.toNat < 0x80 := by omega
  have hsecond : (if lead.toNat = 0xf0 then 0x90 else 0x80) ≤ b.toNat ∧
      b.toNat ≤ if lead.toNat = 0xf4 then 0x8f else 0xbf := by
    split_ifs <;> omega
  simp [decodeFrom, hstart, ofLead?_four hlead, hsecond, hc, hd, Pending.push]

/-- A byte below the first of several stands for itself. -/
theorem decodeFrom_one (h : lead.toNat < 0x80) :
    decodeFrom offset none (lead :: rest) =
      consChar (Char.ofNat lead.toNat) (decodeFrom (offset + 1) none rest) := by
  simp [decodeFrom, h]

/-! ### Encodings -/

/-- A number in the range of characters is the number of its character. -/
theorem toNat_ofNat {n : Nat} (h : n.isValidChar) : (Char.ofNat n).val.toNat = n := by
  rw [Char.ofNat, dif_pos h]
  rfl

/-- A byte made of a small number is that number. -/
theorem ofNat_eq_iff {n : Nat} (h : n < 256) (byte : UInt8) :
    UInt8.ofNat n = byte ↔ n = byte.toNat := by
  rw [← UInt8.toNat_inj, UInt8.toNat_ofNat', Nat.mod_eq_of_lt h]

/-- A byte below the first of several is the encoding of its character. -/
theorem utf8EncodeChar_one (h : lead.toNat < 0x80) :
    String.utf8EncodeChar (Char.ofNat lead.toNat) = [lead] := by
  have hvalid : lead.toNat.isValidChar := by
    unfold Nat.isValidChar
    omega
  rw [String.utf8EncodeChar.eq_1, toNat_ofNat hvalid, if_pos (by omega), UInt8.ofNat_toNat]

/-- Two bytes are the encoding of the character of their bits. -/
theorem Two.utf8EncodeChar_eq (h : Two lead b) :
    String.utf8EncodeChar (Char.ofNat (lead.toNat % 0x20 * 0x40 + b.toNat % 0x40)) = [lead, b] := by
  obtain ⟨hlead, hb⟩ := h
  have hvalid : (lead.toNat % 0x20 * 0x40 + b.toNat % 0x40).isValidChar := by
    unfold Nat.isValidChar
    omega
  rw [String.utf8EncodeChar.eq_1, toNat_ofNat hvalid, if_neg (by omega), if_pos (by omega)]
  simp only [List.cons.injEq, and_true]
  rw [ofNat_eq_iff (by omega), ofNat_eq_iff (by omega)]
  omega

/-- Three bytes are the encoding of the character of their bits. -/
theorem Three.utf8EncodeChar_eq (h : Three lead b c) :
    String.utf8EncodeChar (Char.ofNat
      ((lead.toNat % 0x10 * 0x40 + b.toNat % 0x40) * 0x40 + c.toNat % 0x40)) = [lead, b, c] := by
  obtain ⟨hlead, hb, hlong, hhalf, hc⟩ := h
  have hvalid :
      ((lead.toNat % 0x10 * 0x40 + b.toNat % 0x40) * 0x40 + c.toNat % 0x40).isValidChar := by
    unfold Nat.isValidChar
    omega
  rw [String.utf8EncodeChar.eq_1, toNat_ofNat hvalid, if_neg (by omega), if_neg (by omega),
    if_pos (by omega)]
  simp only [List.cons.injEq, and_true]
  rw [ofNat_eq_iff (by omega), ofNat_eq_iff (by omega), ofNat_eq_iff (by omega)]
  omega

/-- Four bytes are the encoding of the character of their bits. -/
theorem Four.utf8EncodeChar_eq (h : Four lead b c d) :
    String.utf8EncodeChar (Char.ofNat (((lead.toNat % 0x08 * 0x40 + b.toNat % 0x40) * 0x40 +
      c.toNat % 0x40) * 0x40 + d.toNat % 0x40)) = [lead, b, c, d] := by
  obtain ⟨hlead, hb, hlong, hbeyond, hc, hd⟩ := h
  have hvalid : (((lead.toNat % 0x08 * 0x40 + b.toNat % 0x40) * 0x40 +
      c.toNat % 0x40) * 0x40 + d.toNat % 0x40).isValidChar := by
    unfold Nat.isValidChar
    omega
  rw [String.utf8EncodeChar.eq_1, toNat_ofNat hvalid, if_neg (by omega), if_neg (by omega),
    if_neg (by omega)]
  simp only [List.cons.injEq, and_true]
  rw [ofNat_eq_iff (by omega), ofNat_eq_iff (by omega), ofNat_eq_iff (by omega),
    ofNat_eq_iff (by omega)]
  omega

/-- The encoding of a character is read as that character, whatever bytes follow. -/
theorem decodeFrom_utf8EncodeChar (offset : Nat) (c : Char) (rest : List UInt8) :
    ∃ next, decodeFrom offset none (String.utf8EncodeChar c ++ rest) =
      consChar c (decodeFrom next none rest) := by
  have hvalid : c.val.toNat.isValidChar := c.valid
  have hchar : Char.ofNat c.val.toNat = c := Char.ofNat_toNat c
  have hbyte : ∀ n < 256, (UInt8.ofNat n).toNat = n := fun n hn => by
    rw [UInt8.toNat_ofNat', Nat.mod_eq_of_lt hn]
  rw [String.utf8EncodeChar.eq_1]
  unfold Nat.isValidChar at hvalid
  generalize c.val.toNat = v at hvalid hchar ⊢
  split_ifs with hone htwo hthree
  · have hv := hbyte v (by omega)
    refine ⟨offset + 1, ?_⟩
    rw [List.cons_append, decodeFrom_one (by omega), hv, hchar]
    rfl
  · have hx := hbyte (v / 64 % 32 + 192) (by omega)
    have hy := hbyte (v % 64 + 128) (by omega)
    have hbits : (v / 64 % 32 + 192) % 0x20 * 0x40 + (v % 64 + 128) % 0x40 = v := by omega
    refine ⟨offset + 1 + 1, ?_⟩
    rw [List.cons_append, List.cons_append, Two.decodeFrom_eq ⟨by omega, by omega⟩, hx, hy, hbits,
      hchar]
    rfl
  · have hx := hbyte (v / 4096 % 16 + 224) (by omega)
    have hy := hbyte (v / 64 % 64 + 128) (by omega)
    have hz := hbyte (v % 64 + 128) (by omega)
    have hbits : ((v / 4096 % 16 + 224) % 0x10 * 0x40 + (v / 64 % 64 + 128) % 0x40) * 0x40 +
        (v % 64 + 128) % 0x40 = v := by omega
    refine ⟨offset + 1 + 1 + 1, ?_⟩
    rw [List.cons_append, List.cons_append, List.cons_append,
      Three.decodeFrom_eq ⟨by omega, by omega, by omega, by omega, by omega⟩, hx, hy, hz, hbits,
      hchar]
    rfl
  · have hx := hbyte (v / 262144 % 8 + 240) (by omega)
    have hy := hbyte (v / 4096 % 64 + 128) (by omega)
    have hz := hbyte (v / 64 % 64 + 128) (by omega)
    have hw := hbyte (v % 64 + 128) (by omega)
    have hbits : (((v / 262144 % 8 + 240) % 0x08 * 0x40 + (v / 4096 % 64 + 128) % 0x40) * 0x40 +
        (v / 64 % 64 + 128) % 0x40) * 0x40 + (v % 64 + 128) % 0x40 = v := by omega
    refine ⟨offset + 1 + 1 + 1 + 1, ?_⟩
    rw [List.cons_append, List.cons_append, List.cons_append, List.cons_append,
      Four.decodeFrom_eq ⟨by omega, by omega, by omega, by omega, by omega, by omega⟩, hx, hy, hz,
      hw, hbits, hchar]
    rfl

/-! ### Bytes that are accepted -/

/-- Inside of a character the next byte must be there and in range. -/
theorem exists_next_of_decodeFrom {p : Pending} {bytes : List UInt8} {text : List Char}
    (h : decodeFrom offset (some p) bytes = .ok text) :
    ∃ byte rest, bytes = byte :: rest ∧ p.low ≤ byte.toNat ∧ byte.toNat ≤ p.high ∧
      ((p.push byte.toNat).missing ≠ 0 →
        decodeFrom (offset + 1) (some (p.push byte.toNat)) rest = .ok text) := by
  cases bytes with
  | nil => cases h
  | cons byte rest =>
    rw [decodeFrom] at h
    split at h
    · rename_i hrange
      rw [Bool.and_eq_true, decide_eq_true_eq, decide_eq_true_eq] at hrange
      refine ⟨byte, rest, rfl, hrange.1, hrange.2, fun hmissing => ?_⟩
      rwa [if_neg hmissing] at h
    · cases h

/-- Bytes that are accepted begin with the encoding of a character. -/
theorem exists_char_of_decodeFrom {bytes : List UInt8} {text : List Char}
    (h : decodeFrom offset none (lead :: bytes) = .ok text) :
    ∃ c rest next, lead :: bytes = String.utf8EncodeChar c ++ rest ∧
      decodeFrom offset none (lead :: bytes) = consChar c (decodeFrom next none rest) := by
  by_cases hone : lead.toNat < 0x80
  · exact ⟨_, bytes, _, by rw [utf8EncodeChar_one hone]; rfl, decodeFrom_one hone⟩
  have hstep := h
  rw [decodeFrom, if_neg hone] at hstep
  -- The first byte tells how many more have to be there, and each of them is asked for.
  rcases Nat.lt_or_ge lead.toNat 0xc2 with hnone | hlead
  · rw [Pending.ofLead?, if_pos hnone] at hstep
    cases hstep
  rcases Nat.lt_or_ge lead.toNat 0xe0 with hless | hlead'
  · rw [ofLead?_two ⟨hlead, hless⟩] at hstep
    obtain ⟨b, rest, rfl, hlow, hhigh, _⟩ := exists_next_of_decodeFrom hstep
    have hbytes : Two lead b := ⟨⟨hlead, hless⟩, hlow, hhigh⟩
    exact ⟨_, rest, _, by rw [hbytes.utf8EncodeChar_eq]; rfl, hbytes.decodeFrom_eq⟩
  rcases Nat.lt_or_ge lead.toNat 0xf0 with hless | hlead''
  · rw [ofLead?_three ⟨hlead', hless⟩] at hstep
    obtain ⟨b, rest, rfl, hlow, hhigh, hmore⟩ := exists_next_of_decodeFrom hstep
    obtain ⟨c, rest, rfl, hlow', hhigh', _⟩ := exists_next_of_decodeFrom (hmore nofun)
    have hbytes : Three lead b c := by
      refine ⟨⟨hlead', hless⟩, ?_, ?_, ?_, hlow', hhigh'⟩ <;> dsimp only at hlow hhigh <;>
        split_ifs at hlow hhigh <;> omega
    exact ⟨_, rest, _, by rw [hbytes.utf8EncodeChar_eq]; rfl, hbytes.decodeFrom_eq⟩
  rcases Nat.lt_or_ge lead.toNat 0xf5 with hless | hnone
  · rw [ofLead?_four ⟨hlead'', hless⟩] at hstep
    obtain ⟨b, rest, rfl, hlow, hhigh, hmore⟩ := exists_next_of_decodeFrom hstep
    obtain ⟨c, rest, rfl, hlow', hhigh', hmore'⟩ := exists_next_of_decodeFrom (hmore nofun)
    obtain ⟨d, rest, rfl, hlow'', hhigh'', _⟩ := exists_next_of_decodeFrom (hmore' nofun)
    have hbytes : Four lead b c d := by
      refine ⟨⟨hlead'', hless⟩, ?_, ?_, ?_, ⟨hlow', hhigh'⟩, hlow'', hhigh''⟩ <;>
        dsimp only at hlow hhigh <;> split_ifs at hlow hhigh <;> omega
    exact ⟨_, rest, _, by rw [hbytes.utf8EncodeChar_eq]; rfl, hbytes.decodeFrom_eq⟩
  · rw [Pending.ofLead?, if_neg (by omega), if_neg (by omega), if_neg (by omega),
      if_neg (by omega)] at hstep
    cases hstep

/-- A text that was read after a character has that character in front. -/
theorem consChar_eq_ok_iff {c : Char} {result : Except Utf8Error (List Char)} {text : List Char} :
    consChar c result = .ok text ↔ ∃ rest, text = c :: rest ∧ result = .ok rest := by
  cases result with
  | error e => simp [consChar]
  | ok rest => simp [consChar, eq_comm]

/-- Bytes are read as a text exactly if they are its encoding. -/
theorem decodeFrom_eq_ok_iff {offset : Nat} {bytes : List UInt8} {text : List Char} :
    decodeFrom offset none bytes = .ok text ↔ bytes = utf8 text := by
  constructor
  · intro h
    induction text generalizing offset bytes with
    | nil =>
      cases bytes with
      | nil => rfl
      | cons lead bytes =>
        obtain ⟨c, rest, next, _, hread⟩ := exists_char_of_decodeFrom h
        obtain ⟨_, htext, _⟩ := consChar_eq_ok_iff.mp (hread.symm.trans h)
        cases htext
    | cons c text ih =>
      cases bytes with
      | nil => cases h
      | cons lead bytes =>
        obtain ⟨d, rest, next, hbytes, hread⟩ := exists_char_of_decodeFrom h
        obtain ⟨others, htext, hrest⟩ := consChar_eq_ok_iff.mp (hread.symm.trans h)
        cases htext
        rw [hbytes, ih hrest]
        rfl
  · rintro rfl
    induction text generalizing offset with
    | nil => rfl
    | cons c text ih =>
      obtain ⟨next, hread⟩ := decodeFrom_utf8EncodeChar offset c (utf8 text)
      exact hread.trans (consChar_eq_ok_iff.mpr ⟨text, rfl, ih⟩)

/-- The text of a file is what its bytes encode, with every line end turned into a line feed. -/
theorem decodeFile_eq_ok_iff {bytes : List UInt8} {s : String} :
    decodeFile bytes = .ok s ↔
      ∃ text, bytes = utf8 text ∧ s = String.ofList (unifyNewlines text) := by
  have hread : ∀ text, bytes = utf8 text ↔ decodeFrom 0 none bytes = .ok text :=
    fun text => decodeFrom_eq_ok_iff.symm
  simp only [hread, decodeFile]
  cases decodeFrom 0 none bytes with
  | error e => simp
  | ok text => simp [eq_comm]

end TreeLint.Text
