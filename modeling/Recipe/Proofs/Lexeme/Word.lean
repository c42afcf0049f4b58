import Recipe.Lexeme

/-!
# Words

Where a bare word starts and where it ends.  A word is made up of characters
that stand for themselves and of escaped spaces (`IsUnits`), and it does not
start with a character that is a lexeme of its own or opens a string
(`IsWord`).  The reader splits off such texts and no others (`isWord_split`,
`split_append`), as long as nothing behind them goes on with the word (`Stops`).
-/

namespace Recipe.Lexeme

/-- Texts of plain characters and of spaces with a backslash in front of
them. -/
inductive IsUnits : Text → Prop where
  | nil : IsUnits []
  | plain {c : Char} {t : Text} : isPlain c → IsUnits t → IsUnits (c :: t)
  | escaped {t : Text} : IsUnits t → IsUnits ('\\' :: ' ' :: t)

/-- Whether no word goes on with the text. -/
def Stops (r : Text) : Prop := (splitWord r).1 = []

/-- The characters that start another lexeme than a word, though words may hold
them further on. -/
def marks : Text := ['#', '[', ']', ',', '"', '\'']

theorem not_mem_marks_iff {c : Char} :
    c ∉ marks ↔ c ≠ '#' ∧ c ≠ '[' ∧ c ≠ ']' ∧ c ≠ ',' ∧ c ≠ '"' ∧ c ≠ '\'' := by
  simp only [marks, List.mem_cons, List.not_mem_nil, or_false, not_or, ne_eq]

/-- Texts that a source may hold as a bare word. -/
structure IsWord (w : Text) : Prop where
  units : IsUnits w
  ne_nil : w ≠ []
  head : ∀ c ∈ w.head?, c ∉ marks

/-! ## Splitting words -/

theorem splitWord_cons_of_isPlain {c : Char} (h : isPlain c) (t : Text) :
    splitWord (c :: t) = (c :: (splitWord t).1, (splitWord t).2) := by
  rw [splitWord.eq_2, if_pos h]
  rintro t rfl
  cases h

theorem splitWord_of_stops {r : Text} (h : Stops r) : splitWord r = ([], r) := by
  have happend := append_splitWord r
  rw [h, List.nil_append] at happend
  exact Prod.ext h happend

theorem isUnits_splitWord (t : Text) : IsUnits (splitWord t).1 := by
  fun_induction splitWord t with
  | case1 t word rest hsplit ih => rw [hsplit] at ih; exact .escaped ih
  | case2 c t _ hc word rest hsplit ih => rw [hsplit] at ih; exact .plain hc ih
  | case3 => exact .nil
  | case4 => exact .nil

namespace IsUnits

theorem append {v w : Text} (hv : IsUnits v) (hw : IsUnits w) : IsUnits (v ++ w) := by
  induction hv with
  | nil => exact hw
  | plain hc _ ih => exact .plain hc ih
  | escaped _ ih => exact .escaped ih

/-- A word is split off whole, and nothing else with it. -/
theorem splitWord_append {w r : Text} (hw : IsUnits w) (hr : Stops r) :
    splitWord (w ++ r) = (w, r) := by
  induction hw with
  | nil => exact splitWord_of_stops hr
  | plain hc _ ih => rw [List.cons_append, splitWord_cons_of_isPlain hc, ih]
  | escaped _ ih => rw [List.cons_append, List.cons_append, splitWord, ih]

end IsUnits

/-- No word goes on with a text exactly if the text starts with nothing that
words hold. -/
theorem stops_iff {r : Text} : Stops r ↔ ∀ w, IsUnits w → w <+: r → w = [] := by
  constructor
  · rintro hr w hw ⟨s, rfl⟩
    cases hw with
    | nil => rfl
    | @plain c w hc _ =>
      rw [Stops, List.cons_append, splitWord_cons_of_isPlain hc] at hr
      cases hr
    | escaped _ => cases hr
  · exact fun h => h _ (isUnits_splitWord r) ⟨_, append_splitWord r⟩

theorem Stops.of_isPrefix {r r' : Text} (h : Stops r) (hr : r' <+: r) : Stops r' :=
  stops_iff.mpr fun w hw hwr => stops_iff.mp h w hw (hwr.trans hr)

theorem stops_splitWord (t : Text) : Stops (splitWord t).2 := by
  fun_induction splitWord t with
  | case1 t word rest hsplit ih => rwa [hsplit] at ih
  | case2 c t _ _ word rest hsplit ih => rwa [hsplit] at ih
  | case3 c t hescaped hc => rw [Stops, splitWord.eq_2 c t hescaped, if_neg hc]
  | case4 => rfl

/-- Words hold nothing but plain characters, backslashes and spaces. -/
theorem IsUnits.notMem {w : Text} (hw : IsUnits w) {c : Char} (hplain : ¬ isPlain c)
    (hslash : c ≠ '\\') (hspace : c ≠ ' ') : c ∉ w := by
  induction hw with
  | nil => exact List.not_mem_nil
  | plain hd _ ih =>
    rw [List.mem_cons, not_or]
    refine ⟨?_, ih⟩
    rintro rfl
    exact hplain hd
  | escaped _ ih => simp [hslash, hspace, ih]

/-- No word holds a line feed. -/
theorem IsUnits.lineFeed_notMem {w : Text} (hw : IsUnits w) : '\n' ∉ w :=
  hw.notMem (by decide) (by decide) (by decide)

/-- A word ends in front of a character that it cannot hold. -/
theorem stops_cons {c : Char} (h : isPlain c = false) (hc : c ≠ '\\') (r : Text) :
    Stops (c :: r) := by
  rw [Stops, splitWord.eq_2, h]
  · rfl
  · rintro _ rfl
    exact absurd rfl hc

/-! ## Words as lexemes -/

namespace IsWord

variable {v w : Text}

/-- A word followed by what words hold is a word. -/
theorem append (hv : IsWord v) (hw : IsUnits w) : IsWord (v ++ w) where
  units := hv.units.append hw
  ne_nil := by simp [hv.ne_nil]
  head := by
    obtain ⟨c, v, rfl⟩ := List.exists_cons_of_ne_nil hv.ne_nil
    exact hv.head

/-- What a word starts with, if it starts with a plain character. -/
theorem cons_inv {c : Char} (h : IsWord (c :: w)) : c ≠ '\n' ∧ ¬ isSpacing c ∧ c ∉ marks := by
  refine ⟨?_, ?_, h.head c rfl⟩
  · rintro rfl
    cases h.units with
    | plain hc _ => cases hc
  · intro hc
    cases h.units with
    | plain hplain _ => simp [isPlain, hc] at hplain
    | escaped _ => cases hc

/-- No gap stands in front of a word. -/
theorem splitGap_append (hw : IsWord w) (r : Text) : splitGap (w ++ r) = ([], w ++ r) := by
  obtain ⟨hunits, hne, -⟩ := hw
  cases hunits with
  | nil => exact absurd rfl hne
  | escaped _ => rfl
  | @plain c w hc _ =>
    have hspacing : ¬ isSpacing c := fun h => by simp [isPlain, h] at hc
    rw [List.cons_append, splitGap.eq_3, if_neg hspacing]
    · rintro t rfl
      cases hc
    · rintro t rfl
      cases hc

/-- A word is split off as the lexeme it spells. -/
theorem split_append {r : Text} (hw : IsWord w) (hr : Stops r) :
    split (w ++ r) = (verbatim (.ofWord w) w, r) := by
  obtain ⟨c, w, rfl⟩ := List.exists_cons_of_ne_nil hw.ne_nil
  obtain ⟨hfeed, -, hmarks⟩ := hw.cons_inv
  have hword := hw.units.splitWord_append hr
  obtain ⟨hhash, hleft, hright, hcomma, hdouble, hsingle⟩ := not_mem_marks_iff.mp hmarks
  rw [List.cons_append] at hword ⊢
  rw [split.eq_9 c (w ++ r) hfeed hhash hleft hright hcomma hdouble hsingle, hword]

end IsWord

/-- A lexeme that is split off as a word is one. -/
theorem isWord_split {c : Char} {t word rest : Text} (hc : c ∉ marks) (hword : word ≠ [])
    (h : splitWord (c :: t) = (word, rest)) : IsWord word where
  units := by
    have hunits := isUnits_splitWord (c :: t)
    rwa [h] at hunits
  ne_nil := hword
  head := by
    obtain ⟨d, word, rfl⟩ := List.exists_cons_of_ne_nil hword
    have happend := append_splitWord (c :: t)
    rw [h] at happend
    obtain ⟨rfl, -⟩ := List.cons.inj happend
    rintro _ ⟨⟩
    exact hc

theorem isWord_text (k : Keyword) : IsWord k.text where
  units := by
    have h : (splitWord k.text).1 = k.text := by cases k <;> decide
    exact h ▸ isUnits_splitWord k.text
  ne_nil := by cases k <;> decide
  head := by
    have hhead : ∃ c t, k.text = c :: t ∧ c ∉ marks := by
      cases k <;> exact ⟨_, _, rfl, by decide⟩
    obtain ⟨c, t, htext, hc⟩ := hhead
    rw [htext]
    rintro _ ⟨⟩
    exact hc

end Recipe.Lexeme
