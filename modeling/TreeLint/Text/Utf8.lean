import TreeLint.Text.Ascii

/-!
# Reading bytes as text

Bytes are read as UTF-8 by a machine that takes one byte at a time and, inside a character, knows
how many bytes are missing and in which range the next one lies. The first byte that no character
allows ends the reading, and the error names the bytes of the broken character seen so far.
Afterwards every kind of line end is turned into a line feed.
-/

namespace TreeLint.Text

/-- Why bytes are not UTF-8. -/
inductive Utf8Fault where
  | startByte
  | continuationByte
  | endOfData
deriving DecidableEq

/-- The wording of a fault. -/
def Utf8Fault.message : Utf8Fault → String
  | .startByte => "invalid start byte"
  | .continuationByte => "invalid continuation byte"
  | .endOfData => "unexpected end of data"

/-- A broken character: the offset of its first byte, that byte, and how many bytes it has. -/
structure Utf8Error where
  start : Nat
  lead : Nat
  length : Nat
  fault : Utf8Fault
deriving DecidableEq

/-- The wording of a broken character. -/
def Utf8Error.message (e : Utf8Error) : String :=
  if e.length = 1 then
    let byte := String.ofList (hexDigits 2 e.lead)
    s!"'utf-8' codec can't decode byte 0x{byte} in position {e.start}: {e.fault.message}"
  else
    let last := e.start + e.length - 1
    s!"'utf-8' codec can't decode bytes in position {e.start}-{last}: {e.fault.message}"

/-- A character that has begun: its first byte, how many of its bytes were read and how many are
missing, the range of the next byte, and the bits so far. -/
structure Pending where
  lead : Nat
  seen : Nat
  missing : Nat
  low : Nat
  high : Nat
  bits : Nat
deriving DecidableEq

/-- What a byte above the ASCII range begins, if it can begin a character. The narrow ranges after
some first bytes exclude overlong forms, surrogates and numbers above the last code point. -/
def Pending.ofLead? (byte : Nat) : Option Pending :=
  if byte < 0xc2 then none
  else if byte < 0xe0 then some ⟨byte, 1, 1, 0x80, 0xbf, byte % 0x20⟩
  else if byte < 0xf0 then
    some ⟨byte, 1, 2, if byte = 0xe0 then 0xa0 else 0x80, if byte = 0xed then 0x9f else 0xbf,
      byte % 0x10⟩
  else if byte < 0xf5 then
    some ⟨byte, 1, 3, if byte = 0xf0 then 0x90 else 0x80, if byte = 0xf4 then 0x8f else 0xbf,
      byte % 0x08⟩
  else none

/-- Take the next byte of a character. -/
def Pending.push (p : Pending) (byte : Nat) : Pending :=
  ⟨p.lead, p.seen + 1, p.missing - 1, 0x80, 0xbf, p.bits * 0x40 + byte % 0x40⟩

/-- Put a character before the text that follows it. -/
def consChar (c : Char) : Except Utf8Error (List Char) → Except Utf8Error (List Char)
  | .ok text => .ok (c :: text)
  | .error e => .error e

/-- Read bytes from an offset on, with a character that may already have begun. -/
def decodeFrom (offset : Nat) : Option Pending → List UInt8 → Except Utf8Error (List Char)
  | none, [] => .ok []
  | some p, [] => .error ⟨offset - p.seen, p.lead, p.seen, .endOfData⟩
  | none, byte :: rest =>
    if byte.toNat < 0x80 then
      consChar (Char.ofNat byte.toNat) (decodeFrom (offset + 1) none rest)
    else
      match Pending.ofLead? byte.toNat with
      | some p => decodeFrom (offset + 1) (some p) rest
      | none => .error ⟨offset, byte.toNat, 1, .startByte⟩
  | some p, byte :: rest =>
    if p.low ≤ byte.toNat && byte.toNat ≤ p.high then
      let next := p.push byte.toNat
      if next.missing = 0 then
        consChar (Char.ofNat next.bits) (decodeFrom (offset + 1) none rest)
      else decodeFrom (offset + 1) (some next) rest
    else .error ⟨offset - p.seen, p.lead, p.seen, .continuationByte⟩

/-- Turn every line end into a line feed. -/
def unifyNewlines : List Char → List Char
  | [] => []
  | '\r' :: '\n' :: rest => '\n' :: unifyNewlines rest
  | '\r' :: rest => '\n' :: unifyNewlines rest
  | c :: rest => c :: unifyNewlines rest

/-- The text of a file: UTF-8 with every line end turned into a line feed. -/
def decodeFile (bytes : List UInt8) : Except Utf8Error String :=
  match decodeFrom 0 none bytes with
  | .ok text => .ok (String.ofList (unifyNewlines text))
  | .error e => .error e

end TreeLint.Text
