import Mathlib.Tactic.SplitIfs
import Recipe.Text.Basic

/-!
# Texts that end by themselves

A text that is put together from the codes of its characters, and ends in a mark
that starts no code, can be told apart from whatever stands behind it
(`IsCode.flatMap_append_inj`).  So can a number in front of anything but a digit
(`ofNat_append_inj`), and any text in front of a character that it does not hold
(`append_cons_inj`).
-/

namespace Recipe.Text

/-! ## Codes of characters -/

/-- Whether codes of characters can be read in front of anything: no code is the
start of another one, and no code starts with the mark that stands behind them
all. -/
structure IsCode (mark : Char) (code : Char → Text) : Prop where
  eq_of_append : ∀ {c d : Char} {x y : Text}, code c ++ x = code d ++ y → c = d
  append_ne_mark : ∀ {c : Char} {x y : Text}, code c ++ x ≠ mark :: y

/-- The codes in front of the mark say which text they are, and where it
ends. -/
theorem IsCode.flatMap_append_inj {mark : Char} {code : Char → Text} (h : IsCode mark code)
    {s t x y : Text} (heq : s.flatMap code ++ mark :: x = t.flatMap code ++ mark :: y) :
    s = t ∧ x = y := by
  induction s generalizing t with
  | nil =>
    cases t with
    | nil => exact ⟨rfl, (List.cons.inj heq).2⟩
    | cons d t =>
      rw [List.flatMap_cons, List.append_assoc] at heq
      exact absurd heq.symm h.append_ne_mark
  | cons c s ih =>
    rw [List.flatMap_cons, List.append_assoc] at heq
    cases t with
    | nil => exact absurd heq h.append_ne_mark
    | cons d t =>
      rw [List.flatMap_cons, List.append_assoc] at heq
      obtain rfl := h.eq_of_append heq
      obtain ⟨rfl, rfl⟩ := ih (List.append_cancel_left heq)
      exact ⟨rfl, rfl⟩

/-- Codes with a backslash in front of them, for the backslash and the mark
among others, can be read if they can be told from each other and all other
characters stand for themselves. -/
theorem isCode_of_escapes {mark : Char} {code : Char → Text} {P : Char → Prop} [DecidablePred P]
    (hescape : ∀ {c}, P c → (code c).head? = some '\\') (hplain : ∀ {c}, ¬ P c → code c = [c])
    (hbackslash : P '\\') (hmark : P mark) (hne : mark ≠ '\\')
    (hpair : ∀ {c d x y}, P c → P d → code c ++ x = code d ++ y → c = d) : IsCode mark code := by
  have hhead (c : Char) (x : Text) : (code c ++ x).head? = some (if P c then '\\' else c) := by
    by_cases hc : P c
    · rw [List.head?_append, hescape hc, if_pos hc, Option.some_or]
    · rw [hplain hc, if_neg hc, List.singleton_append, List.head?_cons]
  constructor
  · intro c d x y heq
    have hheads := congrArg List.head? heq
    rw [hhead, hhead, Option.some.injEq] at hheads
    split_ifs at hheads with hc hd hd
    · exact hpair hc hd heq
    · exact absurd (hheads ▸ hbackslash) hd
    · exact absurd (hheads ▸ hbackslash) hc
    · exact hheads
  · intro c x y heq
    have hheads := congrArg List.head? heq
    rw [hhead, List.head?_cons, Option.some.injEq] at hheads
    split_ifs at hheads with hc
    · exact hne hheads.symm
    · exact hc (hheads ▸ hmark)

/-- A text ends in front of a character that it does not hold. -/
theorem append_cons_inj {c : Char} {s t x y : Text} (hs : c ∉ s) (ht : c ∉ t)
    (heq : s ++ c :: x = t ++ c :: y) : s = t ∧ x = y := by
  have hcut : cut? c (s ++ c :: x) = some (s, x) := cut?_eq_some_iff.mpr ⟨rfl, hs⟩
  rw [heq, cut?_eq_some_iff.mpr ⟨rfl, ht⟩] at hcut
  obtain ⟨rfl, rfl⟩ := Prod.mk.inj (Option.some.inj hcut)
  exact ⟨rfl, rfl⟩

/-! ## Numbers -/

/-- Whether a number ends in front of the text. -/
def EndsNumber (t : Text) : Prop := ∀ c ∈ t.head?, ¬ c.isDigit

theorem endsNumber_cons {c : Char} (hc : ¬ c.isDigit) (t : Text) : EndsNumber (c :: t) := by
  rintro d hd
  obtain rfl : c = d := Option.some.inj hd
  exact hc

theorem isDigit_of_mem_ofNat {n : Nat} {c : Char} (hc : c ∈ ofNat n) : c.isDigit :=
  Nat.isDigit_of_mem_toDigits (by decide) (by decide) hc

theorem ofNat_injective : Function.Injective ofNat := by
  have hread : Function.LeftInverse (Nat.ofDigitChars 10 · 0) ofNat :=
    fun _ => Nat.ofDigitChars_ten_toDigits
  exact hread.injective

theorem takeWhile_isDigit_ofNat_append (n : Nat) {x : Text} (hx : EndsNumber x) :
    (ofNat n ++ x).takeWhile Char.isDigit = ofNat n := by
  have hnone : x.takeWhile Char.isDigit = [] := by
    cases x with
    | nil => rfl
    | cons c x => exact List.takeWhile_cons_of_neg (hx c rfl)
  rw [List.takeWhile_append_of_pos fun _ hc => isDigit_of_mem_ofNat hc, hnone, List.append_nil]

/-- The digits in front of anything else say which number they are. -/
theorem ofNat_append_inj {m n : Nat} {x y : Text} (hx : EndsNumber x) (hy : EndsNumber y)
    (heq : ofNat m ++ x = ofNat n ++ y) : m = n ∧ x = y := by
  have hdigits := congrArg (List.takeWhile Char.isDigit) heq
  rw [takeWhile_isDigit_ofNat_append m hx, takeWhile_isDigit_ofNat_append n hy] at hdigits
  obtain rfl := ofNat_injective hdigits
  exact ⟨rfl, List.append_cancel_left heq⟩

/-! ## Hexadecimal numbers -/

theorem hex_of_lt {n : Nat} (h : n < 16) : hex n = [Nat.digitChar n] := by
  rw [hex, Nat.toDigits_eq_if (by decide), if_pos h]

/-- The last digit, and the digits in front of it. -/
theorem hex_of_le {n : Nat} (h : 16 ≤ n) : hex n = hex (n / 16) ++ [Nat.digitChar (n % 16)] := by
  rw [hex, Nat.toDigits_eq_if (by decide), if_neg (by omega), ← hex]

/-- A number has nothing but the sixteen digits. -/
theorem mem_digits_of_mem_hex {n : Nat} {c : Char} (hc : c ∈ hex n) :
    c ∈ (List.range 16).map Nat.digitChar := by
  induction n using Nat.strongRecOn with
  | ind n ih =>
    by_cases h : n < 16
    · rw [hex_of_lt h, List.mem_singleton] at hc
      exact List.mem_map.mpr ⟨n, List.mem_range.mpr h, hc.symm⟩
    · rw [hex_of_le (by omega), List.mem_append, List.mem_singleton] at hc
      rcases hc with hc | rfl
      · exact ih (n / 16) (by omega) hc
      · exact List.mem_map.mpr ⟨n % 16, List.mem_range.mpr (by omega), rfl⟩

theorem digitChar_inj {m n : Nat} (hm : m < 16) (hn : n < 16)
    (heq : Nat.digitChar m = Nat.digitChar n) : m = n := by
  have hdigits : ∀ m < 16, ∀ n < 16, Nat.digitChar m = Nat.digitChar n → m = n := by decide
  exact hdigits m hm n hn heq

theorem hex_injective : Function.Injective hex := by
  intro m
  induction m using Nat.strongRecOn with
  | ind m ih =>
    intro n heq
    have hne (k : Nat) : hex k ≠ [] := Nat.toDigits_ne_nil
    rcases Nat.lt_or_ge m 16 with hm | hm
    · rcases Nat.lt_or_ge n 16 with hn | hn
      · rw [hex_of_lt hm, hex_of_lt hn] at heq
        exact digitChar_inj hm hn (List.singleton_inj.mp heq)
      · rw [hex_of_lt hm, hex_of_le hn] at heq
        exact absurd (List.append_singleton_inj.mp heq).1.symm (hne _)
    · rcases Nat.lt_or_ge n 16 with hn | hn
      · rw [hex_of_le hm, hex_of_lt hn] at heq
        exact absurd (List.append_singleton_inj.mp heq).1 (hne _)
      · rw [hex_of_le hm, hex_of_le hn] at heq
        obtain ⟨hfront, hlast⟩ := List.append_singleton_inj.mp heq
        have hdiv : m / 16 = n / 16 := ih (m / 16) (by omega) hfront
        have hmod : m % 16 = n % 16 := digitChar_inj (by omega) (by omega) hlast
        omega

end Recipe.Text
