import Recipe.Span
import Recipe.Text.Basic

/-!
# Slices of a text

A span cuts a piece out of a text if both of its ends stand between characters.
`Text.slice?` counts bytes; `slice?_eq_some_iff` says the same without counting,
as a decomposition of the text into what stands before the span, the piece
itself, and what stands behind it.
-/

namespace Recipe.Text

/-- Cuts a text behind its first `n` bytes, if a character ends there. -/
def splitBytes? : Nat → Text → Option (Text × Text)
  | 0, t => some ([], t)
  | _ + 1, [] => none
  | n + 1, c :: t =>
    if c.utf8Size ≤ n + 1 then
      (splitBytes? (n + 1 - c.utf8Size) t).map fun (l, r) => (c :: l, r)
    else none

/-- The piece of a text that a span covers, if the span lies inside the text
and starts and ends between characters. -/
def slice? (t : Text) (s : Span) : Option Text := do
  let n ← s.length?
  let (_, rest) ← t.splitBytes? s.start
  let (piece, _) ← rest.splitBytes? n
  return piece

/-- Cutting behind `n` bytes is finding a first part of `n` bytes. -/
theorem splitBytes?_eq_some_iff {n : Nat} {t l r : Text} :
    splitBytes? n t = some (l, r) ↔ t = l ++ r ∧ l.byteSize = n := by
  induction t generalizing n l with
  | nil =>
    cases n with
    | zero => cases l <;> simp [splitBytes?, eq_comm]
    | succ n =>
      simp only [splitBytes?, reduceCtorEq, false_iff, not_and]
      intro h
      obtain ⟨rfl, rfl⟩ := List.append_eq_nil_iff.mp h.symm
      simp
  | cons c t ih =>
    have hc := c.utf8Size_pos
    cases n with
    | zero =>
      cases l with
      | nil => simp [splitBytes?, eq_comm]
      | cons d l =>
        have hd := d.utf8Size_pos
        simp [splitBytes?]
        omega
    | succ n =>
      simp only [splitBytes?]
      split
      · rename_i hle
        simp only [Option.map_eq_some_iff, Prod.exists, Prod.mk.injEq]
        constructor
        · rintro ⟨l', r', h, rfl, rfl⟩
          obtain ⟨rfl, hn⟩ := ih.mp h
          refine ⟨rfl, ?_⟩
          rw [byteSize_cons, hn]
          omega
        · rintro ⟨h, hn⟩
          cases l with
          | nil => simp at hn
          | cons d l =>
            obtain ⟨rfl, rfl⟩ := List.cons.inj h
            rw [byteSize_cons] at hn
            exact ⟨l, r, ih.mpr ⟨rfl, by omega⟩, rfl, rfl⟩
      · rename_i hlt
        simp only [reduceCtorEq, false_iff, not_and]
        intro h hn
        cases l with
        | nil => simp at hn
        | cons d l =>
          obtain ⟨rfl, rfl⟩ := List.cons.inj h
          rw [byteSize_cons] at hn
          omega

/-- A span covers `u` in `t` exactly if `u` stands in `t` between the two ends
of the span. -/
theorem slice?_eq_some_iff {t u : Text} {s : Span} :
    t.slice? s = some u ↔
      ∃ l r, t = l ++ u ++ r ∧ s.start = l.byteSize ∧ s.stop = (l ++ u).byteSize := by
  simp only [slice?, Span.length?, Option.bind_eq_bind, Option.pure_def,
    Option.bind_eq_some_iff, Option.some.injEq, Prod.exists, splitBytes?_eq_some_iff,
    Option.ite_none_right_eq_some]
  constructor
  · rintro ⟨n, ⟨hle, rfl⟩, l, r, ⟨rfl, hl⟩, u', r', ⟨rfl, hu⟩, rfl⟩
    refine ⟨l, r', by simp, hl.symm, ?_⟩
    rw [byteSize_append]
    omega
  · rintro ⟨l, r, rfl, hstart, hstop⟩
    rw [byteSize_append] at hstop
    refine ⟨u.byteSize, ⟨by omega, by omega⟩, l, u ++ r, ⟨by simp, hstart.symm⟩, ?_⟩
    exact ⟨u, r, ⟨rfl, rfl⟩, rfl⟩

/-- The span between two ends that stand around `u` covers `u`. -/
theorem slice?_append (l u r : Text) :
    (l ++ u ++ r).slice? ⟨l.byteSize, (l ++ u).byteSize⟩ = some u :=
  slice?_eq_some_iff.mpr ⟨l, r, rfl, rfl, rfl⟩

/-- A text is cut behind `n` bytes in one way. -/
theorem append_inj_of_byteSize {l l' r r' : Text} (h : l ++ r = l' ++ r')
    (hsize : l.byteSize = l'.byteSize) : l = l' ∧ r = r' := by
  have hleft : splitBytes? l.byteSize (l ++ r) = some (l, r) :=
    splitBytes?_eq_some_iff.mpr ⟨rfl, rfl⟩
  have hright : splitBytes? l.byteSize (l ++ r) = some (l', r') :=
    splitBytes?_eq_some_iff.mpr ⟨h, hsize.symm⟩
  exact Prod.mk.inj (Option.some.inj (hleft.symm.trans hright))

/-- A character of two texts put together belongs to one of them. -/
theorem cases_of_append_eq {a b l r : Text} {c : Char} (h : a ++ b = l ++ c :: r) :
    (∃ v, a = l ++ c :: v ∧ r = v ++ b) ∨ ∃ u, l = a ++ u ∧ b = u ++ c :: r := by
  rcases List.append_eq_append_iff.mp h with ⟨u, hl, hb⟩ | ⟨_ | ⟨d, v⟩, ha, hr⟩
  · exact .inr ⟨u, hl, hb⟩
  · exact .inr ⟨[], by simpa using ha.symm, hr.symm⟩
  · rw [List.cons_append] at hr
    obtain ⟨rfl, rfl⟩ := List.cons.inj hr
    exact .inl ⟨v, ha, rfl⟩

end Recipe.Text
