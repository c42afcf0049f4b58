import Recipe.Proofs.Lexeme.Scan
import Recipe.Proofs.Token.Tiling

/-!
# Where lexemes end

What a lexeme asks of the text behind it.  `Heads x r` says, lexeme by lexeme,
that a text which starts with `x` and goes on with `r` is cut between the two;
the reader cuts there (`Heads.split_eq`) and nowhere else (`heads_split`).
Strings and single marks ask nothing, words ask that nothing behind them goes on
with them, and a quote that is not closed asks that there is nothing.
-/

namespace Recipe.Lexeme

/-- Whether the lexeme is the first one of a text that goes on with `r`. -/
inductive Heads : Lexeme → Text → Prop where
  | textEnd : Heads (verbatim .textEnd []) []
  | lineFeed (r : Text) : Heads (verbatim .lineFeed ['\n']) r
  | hash (r : Text) : Heads (verbatim .hash ['#']) r
  | leftBracket (r : Text) : Heads (verbatim .leftBracket ['[']) r
  | rightBracket (r : Text) : Heads (verbatim .rightBracket [']']) r
  | comma (r : Text) : Heads (verbatim .comma [',']) r
  | string {q : Char} {body : Text} (r : Text) : q = '"' ∨ q = '\'' → q ∉ body →
      Heads ⟨.string, body, q :: (body ++ [q])⟩ r
  | /-- A quote that is not closed. -/
    unclosed {q : Char} {t : Text} : q = '"' ∨ q = '\'' → q ∉ t →
      Heads (verbatim .illegal (q :: t)) []
  | word {w r : Text} : IsWord w → Stops r → Heads (verbatim (.ofWord w) w) r
  | /-- A character that no lexeme starts with. -/
    stray {c : Char} {r : Text} : c ≠ '\n' → c ∉ marks → Stops (c :: r) →
      Heads (verbatim .illegal [c]) r

theorem heads_quoted {q : Char} (hq : q = '"' ∨ q = '\'') (t : Text) :
    Heads (quoted q t).1 (quoted q t).2 := by
  unfold quoted
  split
  · rename_i h
    exact .string _ hq (Text.cut?_eq_some_iff.mp h).2
  · rename_i h
    exact .unclosed hq (Text.cut?_eq_none_iff.mp h)

theorem heads_split (t : Text) : Heads (split t).1 (split t).2 := by
  fun_cases split t with
  | case1 => exact .textEnd
  | case2 t => exact .lineFeed t
  | case3 t => exact .hash t
  | case4 t => exact .leftBracket t
  | case5 t => exact .rightBracket t
  | case6 t => exact .comma t
  | case7 t => exact heads_quoted (.inl rfl) t
  | case8 t => exact heads_quoted (.inr rfl) t
  | case9 c t hfeed hhash hleft hright hcomma hdouble hsingle _ hword =>
    have hmarks := not_mem_marks_iff.mpr ⟨hhash, hleft, hright, hcomma, hdouble, hsingle⟩
    exact .stray hfeed hmarks (congrArg Prod.fst hword)
  | case10 c t hfeed hhash hleft hright hcomma hdouble hsingle word rest hne hword =>
    have hmarks := not_mem_marks_iff.mpr ⟨hhash, hleft, hright, hcomma, hdouble, hsingle⟩
    have hrest := stops_splitWord (c :: t)
    rw [hword] at hrest
    exact .word (isWord_split hmarks hne hword) hrest

variable {x : Lexeme} {r t : Text}

theorem split_quote {q : Char} (hq : q = '"' ∨ q = '\'') (t : Text) :
    split (q :: t) = quoted q t := by
  rcases hq with rfl | rfl <;> rfl

/-- What may head a text is what the reader splits off. -/
theorem Heads.split_eq (h : Heads x r) : split (x.text ++ r) = (x, r) := by
  cases h with
  | textEnd | lineFeed | hash | leftBracket | rightBracket | comma => rfl
  | @string q body r hq hbody =>
    show split (q :: (body ++ [q] ++ r)) = _
    rw [split_quote hq, List.append_assoc]
    exact quoted_append hbody r
  | @unclosed q t hq ht =>
    show split (q :: (t ++ [])) = _
    rw [split_quote hq, List.append_nil, quoted, Text.cut?_eq_none_iff.mpr ht]
  | word hw hr => exact hw.split_append hr
  | @stray c r hfeed hmarks hr =>
    obtain ⟨hhash, hleft, hright, hcomma, hdouble, hsingle⟩ := not_mem_marks_iff.mp hmarks
    show split (c :: r) = _
    rw [split.eq_9 c r hfeed hhash hleft hright hcomma hdouble hsingle, splitWord_of_stops hr]

/-- A bare word is its own text, and nothing goes on with it. -/
theorem Heads.of_isBare (h : Heads x r) (hx : x.kind.isBare) :
    IsWord x.text ∧ x.literal = x.text ∧ Stops r := by
  cases h with
  | word hw hr => exact ⟨hw, rfl, hr⟩
  | _ => cases hx

/-- A character that stands for invalid bytes is a lexeme of its own, or stands
between quotes. -/
theorem Heads.cases_of_replacement_mem (h : Heads x r) (hx : Text.replacement ∈ x.text) :
    x.kind = .illegal ∨ x.kind = .string ∧ Text.replacement ∈ x.literal := by
  cases h with
  | textEnd => cases hx
  | lineFeed | hash | leftBracket | rightBracket | comma => exact absurd hx (by decide)
  | @string q body _ hq _ =>
    have hne : Text.replacement ≠ q := by rcases hq with rfl | rfl <;> decide
    exact .inr ⟨rfl, by simpa [hne] using hx⟩
  | unclosed | stray => exact .inl rfl
  | word hw _ => exact absurd hx (hw.units.notMem (by decide) (by decide) (by decide))

/-- A literal is in the text of its lexeme. -/
theorem Heads.mem_text {c : Char} (h : Heads x r) (hc : c ∈ x.literal) : c ∈ x.text := by
  cases h with
  | string => exact List.mem_cons_of_mem _ (List.mem_append_left _ hc)
  | _ => exact hc

/-- Less text does not go on with a lexeme. -/
theorem Heads.of_isPrefix {r' : Text} (h : Heads x r) (hr : r' <+: r) : Heads x r' := by
  cases h with
  | textEnd => exact List.prefix_nil.mp hr ▸ .textEnd
  | lineFeed => exact .lineFeed r'
  | hash => exact .hash r'
  | leftBracket => exact .leftBracket r'
  | rightBracket => exact .rightBracket r'
  | comma => exact .comma r'
  | string _ hq hbody => exact .string r' hq hbody
  | unclosed hq ht => exact List.prefix_nil.mp hr ▸ .unclosed hq ht
  | word hw hstops => exact .word hw (hstops.of_isPrefix hr)
  | @stray c r hfeed hmarks hstops =>
    exact .stray hfeed hmarks (hstops.of_isPrefix ((List.prefix_cons_inj c).mpr hr))

/-! ## Where gaps end -/

/-- Whether no gap stands in front of the text. -/
def Flush (t : Text) : Prop := ∀ gap, IsGap gap → gap <+: t → gap = []

theorem Flush.of_isPrefix {t t' : Text} (h : Flush t) (ht : t' <+: t) : Flush t' :=
  fun gap hgap hstart => h gap hgap (hstart.trans ht)

theorem flush_nil : Flush [] := fun _ _ hstart => List.prefix_nil.mp hstart

/-- Only blanks and backslashes start a gap. -/
theorem flush_cons {c : Char} (h : ¬ isSpacing c) (hc : c ≠ '\\') (t : Text) : Flush (c :: t) := by
  rintro gap hgap ⟨s, hs⟩
  cases hgap with
  | nil => rfl
  | spacing hspacing _ => exact absurd ((List.cons.inj hs).1 ▸ hspacing) h
  | join _ => exact absurd (List.cons.inj hs).1.symm hc
  | joinReturn _ => exact absurd (List.cons.inj hs).1.symm hc

theorem Flush.splitGap_eq {t : Text} (h : Flush t) : splitGap t = ([], t) := by
  have hgap : (splitGap t).1 = [] := h _ (isGap_splitGap t) ⟨_, append_splitGap t⟩
  have happend := append_splitGap t
  rw [hgap, List.nil_append] at happend
  exact Prod.ext hgap happend

/-- Behind a gap that is split off, there is no other one. -/
theorem flush_splitGap (t : Text) : Flush (splitGap t).2 := by
  fun_induction splitGap t with
  | case1 t gap rest hsplit ih => rwa [hsplit] at ih
  | case2 t gap rest hsplit ih => rwa [hsplit] at ih
  | case3 c t _ _ _ gap rest hsplit ih => rwa [hsplit] at ih
  | case4 c t hjoin hjoinReturn hc =>
    rintro gap hgap ⟨s, hs⟩
    cases hgap with
    | nil => rfl
    | spacing hc' _ => exact absurd ((List.cons.inj hs).1 ▸ hc') hc
    | join _ => exact absurd (List.cons.inj hs).2.symm (hjoin _ (List.cons.inj hs).1.symm)
    | joinReturn _ =>
      exact absurd (List.cons.inj hs).2.symm (hjoinReturn _ (List.cons.inj hs).1.symm)
  | case5 => exact fun gap _ hstart => List.prefix_nil.mp hstart

/-- A gap is split off whole, and nothing else with it. -/
theorem IsGap.splitGap_append {gap t : Text} (hgap : IsGap gap) (ht : Flush t) :
    splitGap (gap ++ t) = (gap, t) := by
  induction hgap with
  | nil => exact ht.splitGap_eq
  | @spacing c gap hc _ ih =>
    rw [List.cons_append, splitGap.eq_3, if_pos hc, ih]
    · rintro _ rfl
      cases hc
    · rintro _ rfl
      cases hc
  | join _ ih => rw [List.cons_append, List.cons_append, splitGap, ih]
  | joinReturn _ ih => rw [List.cons_append, List.cons_append, List.cons_append, splitGap, ih]

/-! ## Texts and their lexemes -/

/-- What gaps and lexemes take of a text, one behind the other. -/
def taken (xs : List (Text × Lexeme)) : Text := xs.flatMap fun p => p.1 ++ p.2.text

theorem taken_cons (gap : Text) (x : Lexeme) (xs : List (Text × Lexeme)) :
    taken ((gap, x) :: xs) = gap ++ (x.text ++ taken xs) := by
  rw [taken, List.flatMap_cons, List.append_assoc]
  rfl

theorem taken_append (xs ys : List (Text × Lexeme)) : taken (xs ++ ys) = taken xs ++ taken ys :=
  List.flatMap_append

/-- Whether the gaps and lexemes, put one behind the other, are read as they
stand. -/
inductive IsSequence : List (Text × Lexeme) → Prop where
  | last {gap : Text} : IsGap gap → IsSequence [(gap, verbatim .textEnd [])]
  | cons {gap : Text} {x : Lexeme} {xs : List (Text × Lexeme)} : IsGap gap →
      Flush (x.text ++ taken xs) → x.kind ≠ .textEnd → Heads x (taken xs) → IsSequence xs →
      IsSequence ((gap, x) :: xs)

/-- A lexeme in front of others. -/
theorem isSequence_cons_iff {gap : Text} {xs : List (Text × Lexeme)} (hxs : xs ≠ []) :
    IsSequence ((gap, x) :: xs) ↔
      IsGap gap ∧ Flush (x.text ++ taken xs) ∧ x.kind ≠ .textEnd ∧ Heads x (taken xs) ∧
        IsSequence xs := by
  constructor
  · intro h
    cases h with
    | last _ => exact absurd rfl hxs
    | cons hgap hflush hx hheads h => exact ⟨hgap, hflush, hx, hheads, h⟩
  · rintro ⟨hgap, hflush, hx, hheads, h⟩
    exact .cons hgap hflush hx hheads h

theorem IsSequence.isGap {xs : List (Text × Lexeme)} (h : IsSequence xs) : ∀ p ∈ xs, IsGap p.1 := by
  induction h with
  | last hgap => simpa using hgap
  | cons hgap _ _ _ _ ih => exact List.forall_mem_cons.mpr ⟨hgap, ih⟩

theorem taken_sequence (t : Text) : taken (sequence t) = t := by
  induction t using sequence.induct with
  | case1 t h =>
    have happend := append_splitGap t
    rw [h] at happend
    rw [sequence_of_splitGap_eq_nil h]
    simpa [taken, verbatim] using happend
  | case2 t h _ _ ih =>
    rw [sequence_of_splitGap_ne_nil h, taken_cons, ih, text_append_split, append_splitGap]

theorem isSequence_sequence (t : Text) : IsSequence (sequence t) := by
  induction t using sequence.induct with
  | case1 t h =>
    rw [sequence_of_splitGap_eq_nil h]
    exact .last (isGap_splitGap t)
  | case2 t h _ _ ih =>
    rw [sequence_of_splitGap_ne_nil h]
    refine .cons (isGap_splitGap t) ?_ (mt kind_split_eq_textEnd_iff.mp h) ?_ ih
    · rw [taken_sequence, text_append_split]
      exact flush_splitGap t
    · rw [taken_sequence]
      exact heads_split _

/-- Only the closing lexeme takes nothing. -/
theorem Heads.text_ne_nil (h : Heads x r) (hx : x.kind ≠ .textEnd) : x.text ≠ [] := by
  cases h with
  | textEnd => exact absurd rfl hx
  | word hw _ => exact hw.ne_nil
  | _ => exact List.cons_ne_nil _ _

theorem IsSequence.sequence_taken {xs : List (Text × Lexeme)} (h : IsSequence xs) :
    sequence (taken xs) = xs := by
  induction h with
  | @last gap hgap =>
    have hsplit := hgap.splitGap_append flush_nil
    rw [taken_cons, show (verbatim .textEnd []).text ++ taken [] = [] from rfl,
      sequence_of_splitGap_eq_nil (by rw [hsplit]), hsplit]
  | @cons gap x xs hgap hflush hx hheads _ ih =>
    have hsplit := hgap.splitGap_append hflush
    have hne : (splitGap (gap ++ (x.text ++ taken xs))).2 ≠ [] := by
      rw [hsplit]
      exact List.append_ne_nil_of_left_ne_nil (hheads.text_ne_nil hx) _
    rw [taken_cons, sequence_of_splitGap_ne_nil hne, hsplit, hheads.split_eq, ih]

/-- **How a text splits**: into the gaps and lexemes that make it up and are
read as they stand. -/
theorem sequence_eq_iff {xs : List (Text × Lexeme)} :
    sequence t = xs ↔ t = taken xs ∧ IsSequence xs := by
  constructor
  · rintro rfl
    exact ⟨(taken_sequence t).symm, isSequence_sequence t⟩
  · rintro ⟨rfl, h⟩
    exact h.sequence_taken

/-- One of the lexemes of a text, with what stands in front of it and behind
it. -/
theorem of_sequence_eq_append {gap : Text} {as bs : List (Text × Lexeme)}
    (h : sequence t = as ++ (gap, x) :: bs) :
    t = taken as ++ gap ++ x.text ++ taken bs ∧ Heads x (taken bs) ∧
      Flush (x.text ++ taken bs) := by
  obtain ⟨rfl, hsequence⟩ := sequence_eq_iff.mp h
  refine ⟨by simp [taken_append, taken_cons], ?_⟩
  clear h
  induction as with
  | nil =>
    cases hsequence with
    | last _ => exact ⟨.textEnd, flush_nil⟩
    | cons _ hflush _ hheads _ => exact ⟨hheads, hflush⟩
  | cons p as ih =>
    obtain ⟨-, -, -, -, hsequence⟩ := (isSequence_cons_iff (by simp)).mp hsequence
    exact ih hsequence

end Recipe.Lexeme
