import Mathlib.Computability.Language
import Recipe.Proofs.Line.Basic
import Recipe.Proofs.Token.Class

/-!
# The language of lines

Which lines are grammatical, said without a reader: as a language over tokens,
built by sums, products and stars from languages of single tokens.

| line | tokens |
|---|---|
| blank | none |
| comment | `#`, a word |
| stage | `FROM`, flags, an image, and possibly `AS` with a word |
| copy | `COPY`, flags, a source, a word |
| argument | `ARG`, a word, and possibly another one if the first has no `=` |
| other | another keyword, then anything that is not illegal |

A part of a line is *viable* if some grammatical line starts with it.  The rest
of the file computes membership token by token: what may stand behind a token
is again a product of such languages.
-/

namespace Recipe.Line

open Computability Token

/-- The language of the single tokens with the property `p`. -/
def one (p : Token → Prop) : Language Token := {l | ∃ t, p t ∧ l = [t]}

/-- The language of the single tokens of kind `k`. -/
abbrev kind (k : Kind) : Language Token := one fun t => t.kind = k

/-- What may stand in a line, its end left out. -/
def content : Language Token :=
  1 + kind .hash * kind .word +
    kind (.keyword .fromImage) * ((one IsFlag)∗ * (one IsSource *
      (1 + kind (.keyword .asName) * kind .word))) +
    kind (.keyword .copy) * ((one IsFlag)∗ * (one IsSource * kind .word)) +
    kind (.keyword .arg) * (kind .word + one IsName * kind .word) +
    one IsOther * (one IsPiece)∗

/-- The language of the token that ends a line. -/
def stop : Language Token := one fun t => t.kind.isLineEnd

/-- The grammatical lines, each with its end. -/
def language : Language Token := content * stop

/-- Whether some grammatical line starts with `p`. -/
def Viable (p : List Token) : Prop := ∃ l ∈ language, p <+: l

/-! ## Membership token by token -/

section Membership

variable {p : Token → Prop} {t : Token} {l : List Token} {K : Language Token}

theorem cons_mem_one_mul : t :: l ∈ one p * K ↔ p t ∧ l ∈ K := by
  rw [Language.mem_mul]
  constructor
  · rintro ⟨_, ⟨u, hu, rfl⟩, b, hb, h⟩
    obtain ⟨rfl, rfl⟩ := List.cons.inj h
    exact ⟨hu, hb⟩
  · rintro ⟨ht, hl⟩
    exact ⟨[t], ⟨t, ht, rfl⟩, l, hl, rfl⟩

theorem cons_mem_one : t :: l ∈ one p ↔ p t ∧ l = [] := by
  constructor
  · rintro ⟨u, hu, h⟩
    obtain ⟨rfl, rfl⟩ := List.cons.inj h
    exact ⟨hu, rfl⟩
  · rintro ⟨ht, rfl⟩
    exact ⟨t, ht, rfl⟩

/-- A star in front of a language either takes a token or is over. -/
theorem star_mul : (one p)∗ * K = K + one p * ((one p)∗ * K) := by
  conv_lhs => rw [← Language.one_add_self_mul_kstar_eq_kstar]
  rw [add_mul, one_mul, mul_assoc]

/-- A star may be over at once. -/
theorem mem_star_mul_of_mem (h : l ∈ K) : l ∈ (one p)∗ * K := by
  rw [star_mul]
  exact .inl h

theorem cons_mem_star_mul :
    t :: l ∈ (one p)∗ * K ↔ t :: l ∈ K ∨ p t ∧ l ∈ (one p)∗ * K := by
  conv_lhs => rw [star_mul, Language.mem_add, cons_mem_one_mul]

theorem cons_mem_star : t :: l ∈ (one p)∗ ↔ p t ∧ l ∈ (one p)∗ := by
  have h := cons_mem_star_mul (p := p) (t := t) (l := l) (K := 1)
  rw [mul_one] at h
  rw [h, Language.mem_one]
  exact or_iff_right (List.cons_ne_nil t l)

/-- The words of a star are the lists of its tokens. -/
theorem mem_star : l ∈ (one p)∗ ↔ ∀ t ∈ l, p t := by
  induction l with
  | nil => exact iff_of_true (Language.nil_mem_kstar _) (by simp)
  | cons t l ih => rw [cons_mem_star, ih, List.forall_mem_cons]

end Membership

/-! ## Flags, and the word behind them -/

section Flags

variable {t : Token} {l fs : List Token} {K : Language Token}

/-- A flag is taken by the star. -/
theorem cons_mem_flags_of_isFlag (h : IsFlag t) :
    t :: l ∈ (one IsFlag)∗ * (one IsSource * K) ↔ l ∈ (one IsFlag)∗ * (one IsSource * K) := by
  rw [cons_mem_star_mul, cons_mem_one_mul]
  simp [h, h.not_isSource]

/-- A source ends the flags. -/
theorem cons_mem_flags_of_isSource (h : IsSource t) :
    t :: l ∈ (one IsFlag)∗ * (one IsSource * K) ↔ l ∈ K := by
  rw [cons_mem_star_mul, cons_mem_one_mul]
  have hflag : ¬ IsFlag t := fun hflag => hflag.not_isSource h
  simp [h, hflag]

/-- Nothing else may stand among the flags. -/
theorem cons_notMem_flags (hflag : ¬ IsFlag t) (hsource : ¬ IsSource t) :
    t :: l ∉ (one IsFlag)∗ * (one IsSource * K) := by
  rw [cons_mem_star_mul, cons_mem_one_mul]
  simp [hflag, hsource]

theorem cons_notMem_flags_of_ne_word (h : t.kind ≠ .word) :
    t :: l ∉ (one IsFlag)∗ * (one IsSource * K) :=
  cons_notMem_flags (fun hflag => h hflag.1) fun hsource => h hsource.1

/-- Flags in front do not matter. -/
theorem append_mem_flags (h : fs ∈ (one IsFlag)∗) :
    fs ++ l ∈ (one IsFlag)∗ * (one IsSource * K) ↔ l ∈ (one IsFlag)∗ * (one IsSource * K) := by
  induction fs with
  | nil => rfl
  | cons f fs ih =>
    obtain ⟨hf, hfs⟩ := cons_mem_star.mp h
    rw [List.cons_append, cons_mem_flags_of_isFlag hf]
    exact ih hfs

end Flags

/-! ## What may stand behind the head of a line -/

section Head

variable {t e : Token} {l p : List Token} {K : Language Token}

/-- What may stand behind a head of the given kind, the end of the line
included. -/
def behind : Kind → Language Token
  | .textEnd | .lineFeed => 1
  | .hash => kind .word * stop
  | .keyword .fromImage =>
    (one IsFlag)∗ * (one IsSource * (stop + kind (.keyword .asName) * (kind .word * stop)))
  | .keyword .copy => (one IsFlag)∗ * (one IsSource * (kind .word * stop))
  | .keyword .arg => kind .word * stop + one IsName * (kind .word * stop)
  | .keyword _ => (one IsPiece)∗ * stop
  | _ => 0

theorem behind_of_isOther (h : IsOther t) : behind t.kind = (one IsPiece)∗ * stop := by
  obtain ⟨k, hk, hfrom, harg, hcopy⟩ := h
  rw [hk]
  cases k <;> first | rfl | contradiction

/-- The grammar of lines by the kind of their head. -/
theorem cons_mem_language : t :: l ∈ language ↔ l ∈ behind t.kind := by
  have hsum : language =
      stop + kind .hash * (kind .word * stop) +
        kind (.keyword .fromImage) * ((one IsFlag)∗ * (one IsSource *
          (stop + kind (.keyword .asName) * (kind .word * stop)))) +
        kind (.keyword .copy) * ((one IsFlag)∗ * (one IsSource * (kind .word * stop))) +
        kind (.keyword .arg) * (kind .word * stop + one IsName * (kind .word * stop)) +
        one IsOther * ((one IsPiece)∗ * stop) := by
    simp only [language, content, add_mul, one_mul, mul_assoc]
  rw [hsum]
  simp only [Language.mem_add, cons_mem_one_mul, stop, cons_mem_one]
  cases hkind : t.kind with
  | keyword k =>
    rw [isOther_iff hkind]
    cases k <;> simp [behind, stop, Kind.isLineEnd, Language.mem_add, -add_eq_sup]
  | textEnd | lineFeed =>
    have hother : ¬ IsOther t := not_isOther (by simp [hkind])
    simp [behind, hother, Kind.isLineEnd, Language.mem_one]
  | _ =>
    have hother : ¬ IsOther t := not_isOther (by simp [hkind])
    simp [behind, stop, hother, Kind.isLineEnd]

/-- A line without its end may stand in a recipe exactly if it is grammatical
with any end. -/
theorem mem_content_iff (he : e.kind.isLineEnd) : l ∈ content ↔ l ++ [e] ∈ language := by
  rw [language, Language.mem_mul]
  constructor
  · exact fun h => ⟨l, h, [e], ⟨e, he, rfl⟩, rfl⟩
  · rintro ⟨l', hl', _, ⟨e', -, rfl⟩, h⟩
    rw [← (List.append_inj' h rfl).1]
    exact hl'

end Head

end Recipe.Line
