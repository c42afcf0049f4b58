import Recipe.Text.Utf8

/-!
# Bytes of a text

A text that is written as UTF-8 is read back as it was (`Text.ofBytes_bytes`),
so what a command has printed can be given to it as a file.

The reader takes the bytes of a character one by one: the first one tells how
many there are and what the second one may be (`Text.decodeFrom_lead`), the
others add six bits each (`Text.decodeFrom_continue`).  There is one case for
each number of bytes, and the bounds on the second one hold because a character
is neither a surrogate nor beyond the last code point.
-/

namespace Recipe.Text

/-- The bytes of a text in UTF-8. -/
def bytes (t : Text) : List UInt8 := t.flatMap String.utf8EncodeChar

theorem toNat_ofNat_of_lt {n : Nat} (h : n < 256) : (UInt8.ofNat n).toNat = n := by
  rw [UInt8.toNat_ofNat', Nat.mod_eq_of_lt h]

theorem decodeFrom_ascii {b : UInt8} (h : b.toNat < 0x80) (bs : List UInt8) :
    decodeFrom none (b :: bs) = Char.ofNat b.toNat :: decodeFrom none bs := by
  simp [decodeFrom, decodeByte, decodeLead, h]

theorem decodeFrom_lead {b : UInt8} {p : Pending} (h : Pending.ofLead? b.toNat = some p)
    (bs : List UInt8) : decodeFrom none (b :: bs) = decodeFrom (some p) bs := by
  have hb : ¬ b.toNat < 0x80 := by
    intro hlt
    have hnone : Pending.ofLead? b.toNat = none := by
      unfold Pending.ofLead?
      repeat rw [if_neg (by omega)]
    rw [hnone] at h
    cases h
  simp [decodeFrom, decodeByte, decodeLead, hb, h]

/-- A byte that adds six bits, which are those of `n`. -/
theorem decodeFrom_continue {bits missing low high n : Nat} (hlow : low ≤ n % 64 + 0x80)
    (hhigh : n % 64 + 0x80 ≤ high) (hmissing : missing ≠ 1) (bs : List UInt8) :
    decodeFrom (some ⟨bits, missing, low, high⟩) (UInt8.ofNat (n % 64 + 0x80) :: bs) =
      decodeFrom (some ⟨bits * 64 + n % 64, missing - 1, 0x80, 0xBF⟩) bs := by
  have hbyte := toNat_ofNat_of_lt (n := n % 64 + 0x80) (by omega)
  have hbits : (n % 64 + 0x80) % 64 = n % 64 := by omega
  simp only [decodeFrom, decodeByte]
  rw [hbyte, hbits, if_pos ⟨hlow, hhigh⟩, if_neg hmissing]
  rfl

/-- The last byte of a character. -/
theorem decodeFrom_last (bits n : Nat) (bs : List UInt8) :
    decodeFrom (some ⟨bits, 1, 0x80, 0xBF⟩) (UInt8.ofNat (n % 64 + 0x80) :: bs) =
      Char.ofNat (bits * 64 + n % 64) :: decodeFrom none bs := by
  have hbyte := toNat_ofNat_of_lt (n := n % 64 + 0x80) (by omega)
  have hbits : (n % 64 + 0x80) % 64 = n % 64 := by omega
  simp only [decodeFrom, decodeByte]
  rw [hbyte, hbits, if_pos (by omega)]
  rfl

section Lead

variable {v : Nat}

theorem ofLead?_two (hlow : 0x80 ≤ v) (hhigh : v ≤ 0x7FF) :
    Pending.ofLead? (v / 64 + 0xC0) = some ⟨v / 64, 1, 0x80, 0xBF⟩ := by
  unfold Pending.ofLead?
  rw [if_pos (by omega), Nat.add_sub_cancel]

/-- The bounds on the second byte of three keep out overlong forms and
surrogates. -/
theorem exists_ofLead?_three (hlow : 0x800 ≤ v) (hhigh : v ≤ 0xFFFF)
    (hvalid : v < 0xD800 ∨ 0xDFFF < v) :
    ∃ low high, Pending.ofLead? (v / 4096 + 0xE0) = some ⟨v / 4096, 2, low, high⟩ ∧
      low ≤ v / 64 % 64 + 0x80 ∧ v / 64 % 64 + 0x80 ≤ high := by
  unfold Pending.ofLead?
  rw [if_neg (by omega)]
  split
  · exact ⟨0xA0, 0xBF, by simp; omega, by omega, by omega⟩
  · split
    · exact ⟨0x80, 0x9F, by simp; omega, by omega, by omega⟩
    · rw [if_pos (by omega), Nat.add_sub_cancel]
      exact ⟨0x80, 0xBF, rfl, by omega, by omega⟩

/-- The bounds on the second byte of four keep out overlong forms and what lies
beyond the last code point. -/
theorem exists_ofLead?_four (hlow : 0x10000 ≤ v) (hhigh : v ≤ 0x10FFFF) :
    ∃ low high, Pending.ofLead? (v / 262144 + 0xF0) = some ⟨v / 262144, 3, low, high⟩ ∧
      low ≤ v / 4096 % 64 + 0x80 ∧ v / 4096 % 64 + 0x80 ≤ high := by
  unfold Pending.ofLead?
  repeat rw [if_neg (by omega)]
  split
  · exact ⟨0x90, 0xBF, by simp; omega, by omega, by omega⟩
  · split
    · rw [Nat.add_sub_cancel]
      exact ⟨0x80, 0xBF, rfl, by omega, by omega⟩
    · rw [if_pos (by omega)]
      exact ⟨0x80, 0x8F, by simp; omega, by omega, by omega⟩

end Lead

/-- The bytes of a character are read as this character. -/
theorem decodeFrom_utf8EncodeChar (c : Char) (bs : List UInt8) :
    decodeFrom none (String.utf8EncodeChar c ++ bs) = c :: decodeFrom none bs := by
  have hvalid : c.val.toNat < 0xD800 ∨ 0xDFFF < c.val.toNat ∧ c.val.toNat < 0x110000 := c.valid
  have hc : Char.ofNat c.val.toNat = c := Char.ofNat_toNat c
  unfold String.utf8EncodeChar
  generalize c.val.toNat = v at hvalid hc ⊢
  dsimp only
  split
  · have hbyte := toNat_ofNat_of_lt (n := v) (by omega)
    rw [List.singleton_append, decodeFrom_ascii (by omega), hbyte, hc]
  split
  · have hlead : Pending.ofLead? (UInt8.ofNat (v / 64 % 32 + 0xC0)).toNat =
        some ⟨v / 64, 1, 0x80, 0xBF⟩ := by
      rw [toNat_ofNat_of_lt (by omega), Nat.mod_eq_of_lt (by omega)]
      exact ofLead?_two (by omega) (by omega)
    have hbits : v / 64 * 64 + v % 64 = v := by omega
    rw [List.cons_append, List.singleton_append, decodeFrom_lead hlead, decodeFrom_last, hbits, hc]
  split
  · obtain ⟨low, high, hlead, hlow, hhigh⟩ :=
      exists_ofLead?_three (v := v) (by omega) (by omega) (by omega)
    have hlead' : Pending.ofLead? (UInt8.ofNat (v / 4096 % 16 + 0xE0)).toNat =
        some ⟨v / 4096, 2, low, high⟩ := by
      rw [toNat_ofNat_of_lt (by omega), Nat.mod_eq_of_lt (by omega)]
      exact hlead
    have hbits : (v / 4096 * 64 + v / 64 % 64) * 64 + v % 64 = v := by omega
    rw [List.cons_append, List.cons_append, List.singleton_append, decodeFrom_lead hlead',
      decodeFrom_continue hlow hhigh (by decide), decodeFrom_last, hbits, hc]
  · obtain ⟨low, high, hlead, hlow, hhigh⟩ :=
      exists_ofLead?_four (v := v) (by omega) (by omega)
    have hlead' : Pending.ofLead? (UInt8.ofNat (v / 262144 % 8 + 0xF0)).toNat =
        some ⟨v / 262144, 3, low, high⟩ := by
      rw [toNat_ofNat_of_lt (by omega), Nat.mod_eq_of_lt (by omega)]
      exact hlead
    have hbits : ((v / 262144 * 64 + v / 4096 % 64) * 64 + v / 64 % 64) * 64 + v % 64 = v := by
      omega
    rw [List.cons_append, List.cons_append, List.cons_append, List.singleton_append,
      decodeFrom_lead hlead', decodeFrom_continue hlow hhigh (by decide),
      decodeFrom_continue (by omega) (by omega) (by decide), decodeFrom_last, hbits, hc]

/-- **What is written is read**: the bytes of a text are read as this text. -/
theorem ofBytes_bytes (t : Text) : ofBytes (bytes t) = t := by
  rw [ofBytes, bytes]
  induction t with
  | nil => rfl
  | cons c t ih => rw [List.flatMap_cons, decodeFrom_utf8EncodeChar, ih]

end Recipe.Text
