import Recipe.Statement.Basic

/-!
# Classes of tokens

What the grammars of lines ask of a single token, said without a reader.
-/

namespace Recipe

theorem Flag.body?_eq_some_iff {l body : Text} :
    Flag.body? l = some body ↔ l = '-' :: '-' :: body := by
  unfold Flag.body?
  split
  · simp
  · rename_i hne
    constructor
    · rintro ⟨⟩
    · rintro rfl
      exact absurd rfl (hne body)

namespace Token

/-- A word that consists of two hyphens and a text with `=`. -/
def IsFlag (t : Token) : Prop :=
  t.kind = .word ∧ ∃ body : Text, t.literal = '-' :: '-' :: body ∧ '=' ∈ body

/-- A word that starts like a flag, but has no `=`. -/
def IsStrayFlag (t : Token) : Prop :=
  t.kind = .word ∧ ∃ body : Text, t.literal = '-' :: '-' :: body ∧ '=' ∉ body

/-- A word that does not start with two hyphens. -/
def IsSource (t : Token) : Prop := t.kind = .word ∧ ¬ ['-', '-'] <+: t.literal

/-- A word without `=`. -/
def IsName (t : Token) : Prop := t.kind = .word ∧ '=' ∉ t.literal

/-- A keyword whose lines have no grammar of their own. -/
def IsOther (t : Token) : Prop :=
  ∃ k, t.kind = .keyword k ∧ k ≠ .fromImage ∧ k ≠ .arg ∧ k ≠ .copy

/-- A token that a line without a grammar may hold. -/
def IsPiece (t : Token) : Prop := t.kind ≠ .illegal ∧ ¬ t.kind.isLineEnd

variable {t : Token}

/-! ## Flags, and the word behind them -/

/-- A flag is none of the words that may stand behind the flags. -/
theorem IsFlag.not_isSource (h : IsFlag t) : ¬ IsSource t := by
  rintro ⟨-, hsource⟩
  obtain ⟨-, body, hliteral, -⟩ := h
  exact hsource ⟨body, hliteral.symm⟩

theorem IsFlag.not_isStrayFlag (h : IsFlag t) : ¬ IsStrayFlag t := by
  rintro ⟨-, body', hliteral', hbody'⟩
  obtain ⟨-, body, hliteral, hbody⟩ := h
  rw [hliteral, List.cons.injEq, List.cons.injEq] at hliteral'
  exact hbody' (hliteral'.2.2 ▸ hbody)

theorem IsStrayFlag.not_isSource (h : IsStrayFlag t) : ¬ IsSource t := by
  rintro ⟨-, hsource⟩
  obtain ⟨-, body, hliteral, -⟩ := h
  exact hsource ⟨body, hliteral.symm⟩

/-- A word is a flag, or starts like one, or may stand behind the flags. -/
theorem isFlag_or_isStrayFlag_or_isSource (h : t.kind = .word) :
    IsFlag t ∨ IsStrayFlag t ∨ IsSource t := by
  by_cases hhyphens : ['-', '-'] <+: t.literal
  · obtain ⟨body, hbody⟩ := hhyphens
    by_cases hequals : '=' ∈ body
    · exact .inl ⟨h, body, hbody.symm, hequals⟩
    · exact .inr (.inl ⟨h, body, hbody.symm, hequals⟩)
  · exact .inr (.inr ⟨h, hhyphens⟩)

theorem IsFlag.exists_flag? (h : IsFlag t) : ∃ flag, t.flag? = some flag := by
  obtain ⟨-, body, hliteral, hequals⟩ := h
  cases hcut : body.cut? '=' with
  | none => exact absurd hequals (Text.cut?_eq_none_iff.mp hcut)
  | some p =>
    refine ⟨⟨t.literal, p.1, p.2.unescape, t.span⟩, ?_⟩
    simp [flag?, Flag.body?_eq_some_iff.mpr hliteral, hcut]

theorem IsStrayFlag.flag? (h : IsStrayFlag t) :
    ¬ (Flag.body? t.literal).isNone ∧ t.flag? = none := by
  obtain ⟨-, body, hliteral, hequals⟩ := h
  have hbody := Flag.body?_eq_some_iff.mpr hliteral
  simp [Token.flag?, hbody, Text.cut?_eq_none_iff.mpr hequals]

/-- The reader takes a word for one behind the flags if there are no hyphens in
front of it. -/
theorem isSource_iff : IsSource t ↔ t.kind = .word ∧ (Flag.body? t.literal).isNone := by
  apply and_congr_right
  intro _
  rw [Option.isNone_iff_eq_none]
  constructor
  · intro hhyphens
    cases hbody : Flag.body? t.literal with
    | none => rfl
    | some body => exact absurd ⟨body, (Flag.body?_eq_some_iff.mp hbody).symm⟩ hhyphens
  · rintro hbody ⟨body, hliteral⟩
    rw [Flag.body?_eq_some_iff.mpr hliteral.symm] at hbody
    cases hbody

/-! ## Names and heads -/

/-- The reader takes a word for a name if there is no `=` to cut it at. -/
theorem isName_iff : IsName t ↔ t.kind = .word ∧ t.literal.cut? '=' = none :=
  and_congr_right fun _ => Text.cut?_eq_none_iff.symm

theorem isOther_iff {k : Keyword} (h : t.kind = .keyword k) :
    IsOther t ↔ k ≠ .fromImage ∧ k ≠ .arg ∧ k ≠ .copy := by
  constructor
  · rintro ⟨k', hk', h'⟩
    obtain rfl := Kind.keyword.inj (h.symm.trans hk')
    exact h'
  · exact fun h' => ⟨k, h, h'⟩

theorem not_isOther (h : ∀ k, t.kind ≠ .keyword k) : ¬ IsOther t :=
  fun ⟨k, hk, _⟩ => h k hk

end Token

end Recipe
