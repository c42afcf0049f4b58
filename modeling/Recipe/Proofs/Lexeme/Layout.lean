import Mathlib.Data.List.Forall2
import Recipe.Proofs.Lexeme.Split

/-!
# The layout of a text

The gaps of a text may be widened and narrowed, and some put where there were
none, without a change to the lexemes, as long as no gap is taken away
(`IsSequence.relaid`).  Illegal characters are out of this: a gap in front of a
line feed may turn a backslash into a part of the gap or back.  Every other
lexeme starts in a way that no gap and no word goes on with, whatever stands
behind it (`Heads.text_cases`).
-/

namespace Recipe.Lexeme

variable {x : Lexeme} {r t gap : Text} {xs ys : List (Text × Lexeme)}

/-- Whether the second list has the lexemes of the first one, and a gap wherever
that has one. -/
def Relaid : List (Text × Lexeme) → List (Text × Lexeme) → Prop :=
  List.Forall₂ fun p q => q.2 = p.2 ∧ IsGap q.1 ∧ (q.1 = p.1 ∨ q.1 ≠ [])

theorem Relaid.of_nil (h : Relaid [] ys) : ys = [] := List.forall₂_nil_left_iff.mp h

theorem Relaid.of_cons (h : Relaid ((gap, x) :: xs) ys) :
    ∃ gap' ys', ys = (gap', x) :: ys' ∧ IsGap gap' ∧ (gap' = gap ∨ gap' ≠ []) ∧ Relaid xs ys' := by
  obtain ⟨⟨gap', x'⟩, ys', ⟨hx, hgap, hor⟩, hrest, rfl⟩ := List.forall₂_cons_left_iff.mp h
  obtain rfl : x' = x := hx
  exact ⟨gap', ys', rfl, hgap, hor, hrest⟩

/-- A legal lexeme starts with a character that belongs to no gap, or with a
space that is escaped. -/
theorem Heads.text_cases (h : Heads x r) (hx : x.kind ≠ .textEnd) (hlegal : x.kind ≠ .illegal) :
    (∃ c t, x.text = c :: t ∧ ¬ isSpacing c ∧ c ≠ '\\') ∨ ∃ t, x.text = '\\' :: ' ' :: t := by
  cases h with
  | textEnd => exact absurd rfl hx
  | unclosed | stray => exact absurd rfl hlegal
  | lineFeed | hash | leftBracket | rightBracket | comma =>
    exact .inl ⟨_, [], rfl, by decide, by decide⟩
  | @string q body _ hq _ =>
    rcases hq with rfl | rfl <;> exact .inl ⟨_, _, rfl, by decide, by decide⟩
  | word hw _ =>
    obtain ⟨hunits, hne, -⟩ := hw
    cases hunits with
    | nil => exact absurd rfl hne
    | @plain c t hc _ =>
      refine .inl ⟨c, t, rfl, fun hspacing => ?_, ?_⟩
      · simp [isPlain, hspacing] at hc
      · rintro rfl
        cases hc
    | escaped _ => exact .inr ⟨_, rfl⟩

/-- No gap comes up in front of a legal lexeme. -/
theorem Heads.flush (h : Heads x r) (hx : x.kind ≠ .textEnd) (hlegal : x.kind ≠ .illegal)
    (t : Text) : Flush (x.text ++ t) := by
  rcases h.text_cases hx hlegal with ⟨c, u, htext, hc, hslash⟩ | ⟨u, htext⟩
  · rw [htext]
    exact flush_cons hc hslash _
  · rw [htext]
    rintro gap hgap ⟨s, hs⟩
    cases hgap with
    | nil => rfl
    | spacing hc _ =>
      rw [(List.cons.inj hs).1] at hc
      cases hc
    | join _ => cases hs
    | joinReturn _ => cases hs

/-- A word ends in front of a gap. -/
theorem IsGap.stops (h : IsGap gap) (hne : gap ≠ []) (t : Text) : Stops (gap ++ t) := by
  cases h with
  | nil => exact absurd rfl hne
  | @spacing c gap hc _ =>
    refine stops_cons (by simp [isPlain, hc]) ?_ _
    rintro rfl
    cases hc
  | join _ => rfl
  | joinReturn _ => rfl

/-- A word that ends in front of a legal lexeme does so whatever stands behind
that. -/
theorem Heads.stops (h : Heads x r) (hx : x.kind ≠ .textEnd) (hlegal : x.kind ≠ .illegal)
    (hstops : Stops (x.text ++ r)) (t : Text) : Stops (x.text ++ t) := by
  rcases h.text_cases hx hlegal with ⟨c, u, htext, -, hslash⟩ | ⟨u, htext⟩
  · rw [htext] at hstops ⊢
    refine stops_cons ?_ hslash _
    by_contra hplain
    rw [List.cons_append, Stops, splitWord_cons_of_isPlain (by simpa using hplain)] at hstops
    cases hstops
  · rw [htext] at hstops
    cases hstops

/-- Words end where they did. -/
theorem Relaid.stops (h : Relaid xs ys) (hxs : IsSequence xs)
    (hlegal : ∀ p ∈ xs, p.2.kind ≠ .illegal) (hstops : Stops (taken xs)) : Stops (taken ys) := by
  cases hxs with
  | @last gap _ =>
    obtain ⟨gap', ys, rfl, hgap', hor, hrest⟩ := h.of_cons
    obtain rfl := hrest.of_nil
    by_cases hne : gap' = []
    · rw [hne]
      rfl
    · rw [taken_cons]
      exact hgap'.stops hne _
  | @cons gap x xs _ _ hx hheads _ =>
    obtain ⟨gap', ys, rfl, hgap', hor, -⟩ := h.of_cons
    rw [taken_cons] at hstops ⊢
    by_cases hne : gap' = []
    · subst hne
      obtain rfl : [] = gap := hor.resolve_right (fun h => h rfl)
      exact hheads.stops hx (hlegal _ List.mem_cons_self) hstops _
    · exact hgap'.stops hne _

/-- A legal lexeme is split off as it was. -/
theorem Heads.relaid (h : Heads x r) (hx : x.kind ≠ .textEnd) (hlegal : x.kind ≠ .illegal)
    (hr : Stops r → Stops t) : Heads x t := by
  cases h with
  | textEnd => exact absurd rfl hx
  | unclosed | stray => exact absurd rfl hlegal
  | lineFeed => exact .lineFeed t
  | hash => exact .hash t
  | leftBracket => exact .leftBracket t
  | rightBracket => exact .rightBracket t
  | comma => exact .comma t
  | string _ hq hbody => exact .string t hq hbody
  | word hw hstops => exact .word hw (hr hstops)

/-- **Layout does not matter**: with other gaps the lexemes are the same ones,
if none is illegal and no gap is taken away. -/
theorem IsSequence.relaid (h : IsSequence xs) (hlegal : ∀ p ∈ xs, p.2.kind ≠ .illegal)
    (hys : Relaid xs ys) : IsSequence ys := by
  induction h generalizing ys with
  | last _ =>
    obtain ⟨gap', ys, rfl, hgap', -, hrest⟩ := hys.of_cons
    obtain rfl := hrest.of_nil
    exact .last hgap'
  | cons _ _ hx hheads hxs ih =>
    obtain ⟨hlegal', hlegal⟩ := List.forall_mem_cons.mp hlegal
    obtain ⟨gap', ys, rfl, hgap', -, hrest⟩ := hys.of_cons
    exact .cons hgap' (hheads.flush hx hlegal' _) hx
      (hheads.relaid hx hlegal' (hrest.stops hxs hlegal)) (ih hlegal hrest)

theorem Relaid.refl (h : ∀ p ∈ xs, IsGap p.1) : Relaid xs xs :=
  List.forall₂_same.mpr fun p hp => ⟨rfl, h p hp, .inl rfl⟩

/-- One gap may be replaced by any other that is not empty. -/
theorem IsSequence.replace_gap {gap' : Text} (h : IsSequence (xs ++ (gap, x) :: ys))
    (hlegal : ∀ p ∈ xs ++ (gap, x) :: ys, p.2.kind ≠ .illegal) (hgap' : IsGap gap')
    (hne : gap' ≠ []) : IsSequence (xs ++ (gap', x) :: ys) := by
  obtain ⟨hxs, hys⟩ := List.forall_mem_append.mp h.isGap
  refine h.relaid hlegal (List.rel_append (Relaid.refl hxs) (.cons ⟨rfl, hgap', .inr hne⟩ ?_))
  exact Relaid.refl (List.forall_mem_cons.mp hys).2

end Recipe.Lexeme
