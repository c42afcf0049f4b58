import Recipe.Text.Basic

/-!
# Texts of bytes

Bytes are read as UTF-8, and what is not UTF-8 as replacement characters: one
for the longest start of a character that breaks off, and one for every other
byte.  So the reader remembers the character it is in (`Pending`), and a byte
that cannot go on with it is read again as the first byte of the next one.
-/

namespace Recipe.Text

/-- A character of which some bytes are still to come. -/
structure Pending where
  /-- The bits read so far. -/
  bits : Nat
  missing : Nat
  /-- The least and the greatest byte that go on. -/
  low : Nat
  high : Nat
deriving DecidableEq, Repr

namespace Pending

/-- The character that starts with the byte `b`; the bounds on its second byte
keep out overlong forms, surrogates and what lies beyond the last code point. -/
def ofLead? (b : Nat) : Option Pending :=
  if 0xC2 ≤ b ∧ b ≤ 0xDF then some ⟨b - 0xC0, 1, 0x80, 0xBF⟩
  else if b = 0xE0 then some ⟨0, 2, 0xA0, 0xBF⟩
  else if b = 0xED then some ⟨0xD, 2, 0x80, 0x9F⟩
  else if 0xE1 ≤ b ∧ b ≤ 0xEF then some ⟨b - 0xE0, 2, 0x80, 0xBF⟩
  else if b = 0xF0 then some ⟨0, 3, 0x90, 0xBF⟩
  else if 0xF1 ≤ b ∧ b ≤ 0xF3 then some ⟨b - 0xF0, 3, 0x80, 0xBF⟩
  else if b = 0xF4 then some ⟨4, 3, 0x80, 0x8F⟩
  else none

end Pending

/-- What a byte between characters gives, and the character it starts. -/
def decodeLead (b : Nat) : Text × Option Pending :=
  if b < 0x80 then ([Char.ofNat b], none)
  else
    match Pending.ofLead? b with
    | some p => ([], some p)
    | none => ([replacement], none)

/-- What a byte gives, and the character that is then pending. -/
def decodeByte : Option Pending → Nat → Text × Option Pending
  | none, b => decodeLead b
  | some p, b =>
    if p.low ≤ b ∧ b ≤ p.high then
      let bits := p.bits * 64 + b % 64
      if p.missing = 1 then ([Char.ofNat bits], none)
      else ([], some ⟨bits, p.missing - 1, 0x80, 0xBF⟩)
    else
      let (t, pending) := decodeLead b
      (replacement :: t, pending)

/-- Reads bytes in front of which the character `pending` has been started. -/
def decodeFrom : Option Pending → List UInt8 → Text
  | none, [] => []
  | some _, [] => [replacement]
  | pending, b :: bs =>
    let (t, pending) := decodeByte pending b.toNat
    t ++ decodeFrom pending bs

def ofBytes (bs : List UInt8) : Text := decodeFrom none bs

end Recipe.Text
