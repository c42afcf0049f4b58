import Recipe.Proofs.Text.Code
import Recipe.Text.Quoted

/-!
# Quotes lose nothing

A text in quotes stays on one line (`lineFeed_notMem_quoted`), and it says which
text it is and where it ends, whatever stands behind it (`quoted_append_inj`).
A character that is not shown as itself is shown as a backslash with a letter or
by its code point between braces (`quoteChar_cases`), and what stands behind the
backslash tells the two apart.
-/

namespace Recipe.Text

/-- The characters with a letter of their own behind the backslash. -/
def lettered : List Char := ['\x00', '\t', '\n', '\r', '"', '\\']

/-- A character that is shown by its code point. -/
def codePoint (c : Char) : Text := '\\' :: 'u' :: '\x7b' :: (hex c.toNat ++ ['\x7d'])

theorem quoteChar_of_notMem_lettered {c : Char} (hc : c ∉ lettered) :
    quoteChar c = if isHidden c then codePoint c else [c] := by
  fun_cases quoteChar c with
  | case7 => simp [codePoint, *]
  | case8 => simp [*]
  | _ => exact absurd (by decide) hc

/-- The two ways to show a character by others. -/
theorem quoteChar_cases {c : Char} (hc : c ∈ lettered ∨ isHidden c) :
    (c ∈ lettered ∧ ∃ l, l ≠ 'u' ∧ quoteChar c = ['\\', l]) ∨ quoteChar c = codePoint c := by
  by_cases hlettered : c ∈ lettered
  · left
    refine ⟨hlettered, ?_⟩
    simp only [lettered, List.mem_cons, List.not_mem_nil, or_false] at hlettered
    rcases hlettered with rfl | rfl | rfl | rfl | rfl | rfl
    all_goals exact ⟨_, by decide, rfl⟩
  · right
    rw [quoteChar_of_notMem_lettered hlettered, if_pos (hc.resolve_left hlettered)]

theorem quoteChar_of_plain {c : Char} (hc : ¬ (c ∈ lettered ∨ isHidden c)) : quoteChar c = [c] := by
  rw [not_or] at hc
  rw [quoteChar_of_notMem_lettered hc.1, if_neg hc.2]

theorem codePoint_append_inj {c d : Char} {x y : Text}
    (heq : codePoint c ++ x = codePoint d ++ y) : c = d := by
  have hbrace (n : Nat) : '\x7d' ∉ hex n := fun h => absurd (mem_digits_of_mem_hex h) (by decide)
  simp only [codePoint, List.cons_append, List.append_assoc, List.nil_append, List.cons.injEq,
    true_and] at heq
  exact Char.toNat_inj.mp (hex_injective (append_cons_inj (hbrace _) (hbrace _) heq).1)

/-- The characters that are shown by a letter, with what is shown.  A statement
about these pairs is decided by going through the list; one about characters
would go through them all. -/
def shownLetters : List (Char × Text) := lettered.map fun c => (c, quoteChar c)

theorem shownLetters_inj : ∀ p ∈ shownLetters, ∀ q ∈ shownLetters, p.2 <+: q.2 → p.1 = q.1 := by
  decide

/-- A character in quotes can be read in front of anything. -/
theorem isCode_quoteChar : IsCode '"' quoteChar := by
  have hletters {c d : Char} (hc : c ∈ lettered) (hd : d ∈ lettered)
      (hshown : quoteChar c <+: quoteChar d) : c = d :=
    shownLetters_inj _ (List.mem_map_of_mem hc) _ (List.mem_map_of_mem hd) hshown
  refine isCode_of_escapes ?_ quoteChar_of_plain (by decide) (by decide) (by decide) ?_
  · intro c hc
    rcases quoteChar_cases hc with ⟨-, l, -, hshown⟩ | hshown
    all_goals exact hshown ▸ rfl
  · intro c d x y hc hd heq
    rcases quoteChar_cases hc with ⟨hlettered, l, hl, hshown⟩ | hshown
    · rcases quoteChar_cases hd with ⟨hlettered', -⟩ | hshown'
      · rcases List.append_eq_append_iff.mp heq with ⟨u, hu, -⟩ | ⟨u, hu, -⟩
        · exact hletters hlettered hlettered' ⟨u, hu.symm⟩
        · exact (hletters hlettered' hlettered ⟨u, hu.symm⟩).symm
      · rw [hshown, hshown'] at heq
        exact absurd (List.cons.inj (List.cons.inj heq).2).1 hl
    · rcases quoteChar_cases hd with ⟨-, l, hl, hshown'⟩ | hshown'
      · rw [hshown, hshown'] at heq
        exact absurd (List.cons.inj (List.cons.inj heq).2).1.symm hl
      · rw [hshown, hshown'] at heq
        exact codePoint_append_inj heq

/-- **A text in quotes** says which text it is, and where it ends. -/
theorem quoted_append_inj {s t x y : Text} (heq : quoted s ++ x = quoted t ++ y) :
    s = t ∧ x = y := by
  simp only [quoted, List.cons_append, List.append_assoc, List.nil_append] at heq
  exact isCode_quoteChar.flatMap_append_inj (List.cons.inj heq).2

theorem lineFeed_notMem_quoteChar (c : Char) : '\n' ∉ quoteChar c := by
  have hfeed (n : Nat) : '\n' ∉ hex n := fun h => absurd (mem_digits_of_mem_hex h) (by decide)
  have hletters : ∀ p ∈ shownLetters, '\n' ∉ p.2 := by decide
  by_cases hc : c ∈ lettered ∨ isHidden c
  · rcases quoteChar_cases hc with ⟨hlettered, -⟩ | hshown
    · exact hletters _ (List.mem_map_of_mem hlettered)
    · rw [hshown]
      simp [codePoint, hfeed]
  · rw [quoteChar_of_plain hc, List.mem_singleton]
    rintro rfl
    exact hc (.inl (by decide))

theorem lineFeed_notMem_quoted (t : Text) : '\n' ∉ quoted t := by
  simp [quoted, lineFeed_notMem_quoteChar]

end Recipe.Text
