import Recipe.Token.Stream

/-!
# The lexemes of a text

What a text is split into does not depend on where the text stands: the gap in
front of a lexeme, the lexeme and the rest follow from the text alone.
`Lexeme.sequence` lists the gaps and lexemes of a text, `Token.placed` puts
them where they stand, and `Token.ofSource_eq_placed` says that the two make up
the reading of a source.
-/

namespace Recipe

namespace Lexeme

/-- The lexemes of a text, each with the gap in front of it.  The closing lexeme
is the last one. -/
def sequence (t : Text) : List (Text × Lexeme) :=
  if h : (splitGap t).2 = [] then [((splitGap t).1, verbatim .textEnd [])]
  else
    have := length_split_lt h
    have := length_splitGap_le t
    ((splitGap t).1, (split (splitGap t).2).1) :: sequence (split (splitGap t).2).2
termination_by t.length

/-- Only a gap is left: the closing lexeme follows. -/
theorem sequence_of_splitGap_eq_nil {t : Text} (h : (splitGap t).2 = []) :
    sequence t = [((splitGap t).1, verbatim .textEnd [])] := by
  rw [sequence, dif_pos h]

/-- One more lexeme can be split off. -/
theorem sequence_of_splitGap_ne_nil {t : Text} (h : (splitGap t).2 ≠ []) :
    sequence t =
      ((splitGap t).1, (split (splitGap t).2).1) :: sequence (split (splitGap t).2).2 := by
  rw [sequence, dif_neg h]

end Lexeme

namespace Token

/-- The tokens that gaps and lexemes make up from the place `p` on. -/
def placed : Place → List (Text × Lexeme) → List Token
  | _, [] => []
  | p, (gap, x) :: xs => x.toToken (p.after gap) :: placed ((p.after gap).after x.text) xs

namespace Stream

/-- An unfinished stream gives the lexemes of what is left, where they stand. -/
theorem drain_eq_placed (s : Stream) (hs : s.finished = false) :
    s.drain.1 = placed s.place (Lexeme.sequence s.rest) := by
  obtain ⟨source, rest, place, finished⟩ := s
  subst hs
  induction rest using Lexeme.sequence.induct generalizing place with
  | case1 rest h =>
    rw [Lexeme.sequence_of_splitGap_eq_nil h, drain]
    split
    · rename_i hnext
      simp [next?] at hnext
    · rename_i token s' hnext
      simp only [next?, read, Lexeme.toToken, h, Bool.false_eq_true, ↓reduceIte, Lexeme.split,
        Lexeme.verbatim, decide_true, Option.some.injEq, Prod.mk.injEq] at hnext
      obtain ⟨rfl, rfl⟩ := hnext
      rw [drain]
      simp [next?, placed, Lexeme.toToken, Lexeme.verbatim]
  | case2 rest h _ _ ih =>
    rw [Lexeme.sequence_of_splitGap_ne_nil h, drain]
    split
    · rename_i hnext
      simp [next?] at hnext
    · rename_i token s' hnext
      have hkind := mt Lexeme.kind_split_eq_textEnd_iff.mp h
      simp only [next?, read, Lexeme.toToken, Bool.false_eq_true, ↓reduceIte, hkind, decide_false,
        Option.some.injEq, Prod.mk.injEq] at hnext
      obtain ⟨rfl, rfl⟩ := hnext
      simp only [ih, placed, Lexeme.toToken]

end Stream

/-- The tokens of a source are its lexemes, placed from its start on. -/
theorem ofSource_eq_placed (source : Text) :
    ofSource source = placed .start (Lexeme.sequence source) :=
  Stream.drain_eq_placed (Stream.ofText source) rfl

theorem exists_placed_eq_append (p : Place) (t : Text) :
    ∃ us e, placed p (Lexeme.sequence t) = us ++ [e] ∧ e.kind = .textEnd ∧
      ∀ u ∈ us, u.kind ≠ .textEnd := by
  induction t using Lexeme.sequence.induct generalizing p with
  | case1 t h =>
    rw [Lexeme.sequence_of_splitGap_eq_nil h]
    exact ⟨[], _, rfl, rfl, List.forall_mem_nil _⟩
  | case2 t h _ _ ih =>
    rw [Lexeme.sequence_of_splitGap_ne_nil h, placed]
    obtain ⟨us, e, hplaced, he, hus⟩ :=
      ih ((p.after (Lexeme.splitGap t).1).after (Lexeme.split (Lexeme.splitGap t).2).1.text)
    have hkind := mt Lexeme.kind_split_eq_textEnd_iff.mp h
    exact ⟨_ :: us, e, by rw [hplaced, List.cons_append], he, List.forall_mem_cons.mpr ⟨hkind, hus⟩⟩

/-- The last token of a source closes it, and no other does. -/
theorem exists_ofSource_eq_append (source : Text) :
    ∃ us e, ofSource source = us ++ [e] ∧ e.kind = .textEnd ∧ ∀ u ∈ us, u.kind ≠ .textEnd := by
  rw [ofSource_eq_placed]
  exact exists_placed_eq_append .start source

end Token

end Recipe
