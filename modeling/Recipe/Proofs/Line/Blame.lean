import Recipe.Proofs.Line.Language

/-!
# Which token is to blame

A line that is not grammatical has a first token that no grammatical line could
have there.  `Line.Blames` names that token and, by what stands in front of it,
the cause of the fault.

The tokens at the start of a line leave a language of what may stand behind
them (`Line.Leaves`).  While this language has a word that starts with the next
token, the line may still become grammatical; the first token for which it has
none is to blame.  So all that has to be known of a part of a line is the
language that it leaves.
-/

namespace Recipe.Line

open Computability Token

open Classical in
/-- What is wrong with a line in which the token `t` cannot stand behind `p`. -/
noncomputable def cause (p : List Token) (t : Token) : Cause :=
  if p = [] then .unexpectedStart t.kind
  else if p ∈ (kind (.keyword .fromImage) + kind (.keyword .copy)) * (one IsFlag)∗ ∧
      IsStrayFlag t then .malformedFlag t.literal
  else if p ∈ one IsOther * (one IsPiece)∗ then .illegalToken t.literal
  else if p ∈ content then .unexpectedToken .lineFeed t.kind
  else .unexpectedToken .word t.kind

/-- The fault shows the first token of the line that no grammatical line has
behind the tokens in front of it. -/
def Blames (l : List Token) (f : Fault) : Prop :=
  ∃ p t r, l = p ++ t :: r ∧ Viable p ∧ ¬ Viable (p ++ [t]) ∧ f = .ofToken (cause p t) t

/-- What is right to say of a line: nothing if it is grammatical, and otherwise
which token is to blame. -/
def Verdict (l : List Token) : Option Fault → Prop
  | none => l ∈ language
  | some f => Blames l f

/-- A line with a token to blame is not grammatical. -/
theorem Blames.notMem_language {l : List Token} {f : Fault} (h : Blames l f) :
    l ∉ language := by
  obtain ⟨p, t, r, rfl, -, hviable, -⟩ := h
  exact fun hl => hviable ⟨_, hl, ⟨r, by simp⟩⟩

/-! ## What is left behind a part of a line -/

/-- Behind the tokens `p`, a line goes on with the words of the language `K`. -/
def Leaves (p : List Token) (K : Language Token) : Prop := ∀ l, p ++ l ∈ language ↔ l ∈ K

namespace Leaves

variable {p : List Token} {t : Token} {K K' : Language Token}

theorem head (t : Token) : Leaves [t] (behind t.kind) := fun _ => cons_mem_language

/-- One more token is taken. -/
theorem append_singleton (h : Leaves p K) (hK : ∀ l, t :: l ∈ K ↔ l ∈ K') :
    Leaves (p ++ [t]) K' := by
  intro l
  rw [List.append_assoc, List.singleton_append, h, hK]

theorem viable_iff (h : Leaves p K) : Viable p ↔ ∃ l, l ∈ K := by
  constructor
  · rintro ⟨_, hl, r, rfl⟩
    exact ⟨r, (h r).mp hl⟩
  · rintro ⟨l, hl⟩
    exact ⟨p ++ l, (h l).mpr hl, l, rfl⟩

/-- A token with which nothing that is left starts is to blame. -/
theorem blames (h : Leaves p K) (hK : ∃ l, l ∈ K) (ht : ∀ l, t :: l ∉ K) (r : List Token) :
    Blames (p ++ t :: r) (.ofToken (cause p t) t) := by
  refine ⟨p, t, r, rfl, h.viable_iff.mpr hK, ?_, rfl⟩
  rintro ⟨_, hl, s, rfl⟩
  rw [List.append_assoc, List.singleton_append] at hl
  exact ht s ((h _).mp hl)

theorem mem_content_iff (h : Leaves p K) {e : Token} (he : e.kind.isLineEnd) :
    p ∈ content ↔ [e] ∈ K := by
  rw [Line.mem_content_iff he, h]

end Leaves

/-- The tokens of a line with its end behind them. -/
inductive Ends : List Token → Prop where
  | stop {e : Token} : e.kind.isLineEnd → Ends [e]
  | cons {t : Token} {l : List Token} : ¬ t.kind.isLineEnd → Ends l → Ends (t :: l)

namespace Ends

variable {w : List Token} {t : Token}

theorem exists_cons (h : Ends w) : ∃ t r, w = t :: r := by
  cases h with
  | @stop e _ => exact ⟨e, [], rfl⟩
  | @cons t l _ _ => exact ⟨t, l, rfl⟩

theorem tail (h : Ends (t :: w)) (ht : ¬ t.kind.isLineEnd) : Ends w := by
  cases h with
  | stop he => exact absurd he ht
  | cons _ hw => exact hw

theorem exists_append (h : Ends w) : ∃ ws e, InLine ws ∧ e.kind.isLineEnd ∧ w = ws ++ [e] := by
  induction h with
  | @stop e he => exact ⟨[], e, inLine_nil, he, rfl⟩
  | @cons t w ht _ ih =>
    obtain ⟨ws, e, hws, he, rfl⟩ := ih
    exact ⟨t :: ws, e, inLine_cons.mpr ⟨ht, hws⟩, he, rfl⟩

end Ends

theorem ends_append {ws : List Token} {e : Token} (hws : InLine ws) (he : e.kind.isLineEnd) :
    Ends (ws ++ [e]) := by
  induction ws with
  | nil => exact .stop he
  | cons t ws ih =>
    obtain ⟨ht, hws⟩ := inLine_cons.mp hws
    exact .cons ht (ih hws)

/-! ## Words that are left over -/

section Left

/-- A line feed and a word, of which every language that is left has enough. -/
theorem exists_mem_stop : ∃ l, l ∈ stop :=
  ⟨[.bare .lineFeed ['\n']], _, by simp [Token.bare, Kind.isLineEnd], rfl⟩

theorem exists_mem_kind_mul (k : Kind) {K : Language Token} (h : ∃ l, l ∈ K) :
    ∃ l, l ∈ kind k * K := by
  obtain ⟨l, hl⟩ := h
  exact ⟨.bare k ['x'] :: l, cons_mem_one_mul.mpr ⟨rfl, hl⟩⟩

theorem exists_mem_flags {K : Language Token} (h : ∃ l, l ∈ K) :
    ∃ l, l ∈ (one IsFlag)∗ * (one IsSource * K) := by
  obtain ⟨l, hl⟩ := h
  have hsource : IsSource (.bare .word ['x']) := ⟨rfl, by simp [Token.bare]⟩
  exact ⟨.bare .word ['x'] :: l, (cons_mem_flags_of_isSource hsource).mpr hl⟩

end Left

/-! ## The cause, state by state -/

section Cause

variable {h t : Token} {p : List Token}

theorem cons_mem_flagged_iff :
    h :: p ∈ (kind (.keyword .fromImage) + kind (.keyword .copy)) * (one IsFlag)∗ ↔
      (h.kind = .keyword .fromImage ∨ h.kind = .keyword .copy) ∧ p ∈ (one IsFlag)∗ := by
  rw [add_mul, Language.mem_add, cons_mem_one_mul, cons_mem_one_mul, or_and_right]

theorem cause_nil : cause [] t = .unexpectedStart t.kind := by
  rw [cause, if_pos rfl]

theorem cause_strayFlag (hh : h.kind = .keyword .fromImage ∨ h.kind = .keyword .copy)
    (hp : p ∈ (one IsFlag)∗) (ht : IsStrayFlag t) :
    cause (h :: p) t = .malformedFlag t.literal := by
  rw [cause, if_neg (List.cons_ne_nil h p), if_pos ⟨cons_mem_flagged_iff.mpr ⟨hh, hp⟩, ht⟩]

theorem cause_illegal (hh : IsOther h) (hp : p ∈ (one IsPiece)∗) :
    cause (h :: p) t = .illegalToken t.literal := by
  obtain ⟨k, hk, hfrom, -, hcopy⟩ := id hh
  have hflagged : ¬ (h.kind = .keyword .fromImage ∨ h.kind = .keyword .copy) := by
    simp [hk, hfrom, hcopy]
  rw [cause, if_neg (List.cons_ne_nil h p),
    if_neg (fun hflag => hflagged (cons_mem_flagged_iff.mp hflag.1).1),
    if_pos (cons_mem_one_mul.mpr ⟨hh, hp⟩)]

/-- A grammatical line goes on. -/
theorem cause_of_mem_content (hh : ¬ IsOther h) (hp : h :: p ∈ content) :
    cause (h :: p) t = .unexpectedToken .lineFeed t.kind := by
  have hflagged : h :: p ∉
      (kind (.keyword .fromImage) + kind (.keyword .copy)) * (one IsFlag)∗ := by
    rw [cons_mem_flagged_iff]
    rintro ⟨hkind, hflags⟩
    have hline := (mem_content_iff (e := .bare .textEnd []) rfl).mp hp
    rw [List.cons_append, cons_mem_language] at hline
    rcases hkind with hkind | hkind
    · rw [hkind, behind, append_mem_flags hflags] at hline
      exact cons_notMem_flags_of_ne_word (by simp [Token.bare]) hline
    · rw [hkind, behind, append_mem_flags hflags] at hline
      exact cons_notMem_flags_of_ne_word (by simp [Token.bare]) hline
  rw [cause, if_neg (List.cons_ne_nil h p), if_neg (fun hflag => hflagged hflag.1),
    if_neg (fun hother => hh (cons_mem_one_mul.mp hother).1), if_pos hp]

/-- Something is missing where no word stands. -/
theorem cause_of_notMem_content (hh : ¬ IsOther h) (hp : h :: p ∉ content)
    (ht : t.kind ≠ .word) : cause (h :: p) t = .unexpectedToken .word t.kind := by
  rw [cause, if_neg (List.cons_ne_nil h p), if_neg (fun hflag => ht hflag.2.1),
    if_neg (fun hother => hh (cons_mem_one_mul.mp hother).1), if_neg hp]

end Cause

end Recipe.Line
