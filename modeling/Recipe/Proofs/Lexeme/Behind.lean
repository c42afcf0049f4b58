import Recipe.Proofs.Lexeme.Piece

/-!
# A line feed behind a text

A text splits as it did before when a line feed and another text are put behind
it, and the line feed is a lexeme, unless the text takes the line feed in.  A
text does so in two ways: a quote that is not closed goes on, and a backslash at
the end joins the next line.  There is no third one, as in front of a line feed
that is a lexeme every quote is closed and no backslash stands.
`isSequence_append_lineFeed_iff` says both.
-/

namespace Recipe.Lexeme

/-- A quote that is not closed, with all that stands behind it. -/
def IsUnclosed (x : Lexeme) : Prop := x.kind = .illegal ∧ ∃ q ∈ x.literal.head?, q = '"' ∨ q = '\''

/-- Texts that end in a backslash, with or without a carriage return behind
it. -/
def JoinsNext (t : Text) : Prop := ['\\'] <:+ t ∨ ['\\', '\r'] <:+ t

instance : DecidablePred JoinsNext := fun _ => inferInstanceAs (Decidable (_ ∨ _))

theorem JoinsNext.of_isSuffix {t t' : Text} (h : JoinsNext t) (ht : t <:+ t') : JoinsNext t' :=
  h.imp (·.trans ht) (·.trans ht)

theorem joinsNext_cons_iff {c : Char} {t : Text} :
    JoinsNext (c :: t) ↔ c = '\\' ∧ (t = [] ∨ t = ['\r']) ∨ JoinsNext t := by
  simp only [JoinsNext, List.suffix_cons_iff, List.cons.injEq]
  tauto

/-! ## Putting a line feed behind a text -/

variable {t r gap : Text} {x : Lexeme} {xs ys : List (Text × Lexeme)}

/-- What starts a text with a line feed put behind it and does not reach the
line feed starts the text. -/
theorem prefix_of_notMem {w : Text} (hw : '\n' ∉ w) (h : w <+: t ++ '\n' :: r) : w <+: t := by
  rcases List.prefix_or_prefix_of_prefix h (List.prefix_append t _) with h' | ⟨_ | ⟨c, u⟩, rfl⟩
  · exact h'
  · simp
  · rw [List.prefix_append_right_inj, List.cons_prefix_cons] at h
    simp [h.1] at hw

/-- A line feed ends every word. -/
theorem Stops.append_lineFeed (h : Stops t) (r : Text) : Stops (t ++ '\n' :: r) :=
  stops_iff.mpr fun w hw hstart =>
    stops_iff.mp h w hw (prefix_of_notMem hw.lineFeed_notMem hstart)

/-- No gap comes up in front of a text unless it is a backslash that takes the
line feed. -/
theorem Flush.append_lineFeed (h : Flush t) (hslash : t ≠ ['\\']) (hreturn : t ≠ ['\\', '\r'])
    (r : Text) : Flush (t ++ '\n' :: r) := by
  intro gap hgap hstart
  cases hgap with
  | nil => rfl
  | @spacing c gap hc _ =>
    have hfeed : '\n' ∉ [c] := by
      rw [List.mem_singleton]
      rintro rfl
      cases hc
    have hc' : [c] <+: t := prefix_of_notMem hfeed ((List.prefix_append [c] gap).trans hstart)
    cases h [c] (.spacing hc .nil) hc'
  | @join gap _ =>
    have hstart' : ['\\'] <+: t :=
      prefix_of_notMem (by simp) ((List.prefix_append ['\\'] _).trans hstart)
    obtain ⟨_ | ⟨d, u⟩, rfl⟩ := hstart'
    · exact absurd rfl hslash
    · simp only [List.cons_append, List.nil_append, List.cons_prefix_cons, true_and] at hstart
      obtain ⟨rfl, -⟩ := hstart
      cases h _ (.join .nil) (List.prefix_append ['\\', '\n'] u)
  | @joinReturn gap _ =>
    have hstart' : ['\\', '\r'] <+: t :=
      prefix_of_notMem (by simp) ((List.prefix_append ['\\', '\r'] _).trans hstart)
    obtain ⟨_ | ⟨d, u⟩, rfl⟩ := hstart'
    · exact absurd rfl hreturn
    · simp only [List.cons_append, List.nil_append, List.cons_prefix_cons, true_and] at hstart
      obtain ⟨rfl, -⟩ := hstart
      cases h _ (.joinReturn .nil) (List.prefix_append ['\\', '\r', '\n'] u)

/-- A lexeme may have a line feed further behind it, unless it is a quote that
is not closed. -/
theorem Heads.append_lineFeed (h : Heads x t) (hx : x.kind ≠ .textEnd) (hclosed : ¬ x.IsUnclosed)
    (r : Text) : Heads x (t ++ '\n' :: r) := by
  cases h with
  | textEnd => exact absurd rfl hx
  | lineFeed => exact .lineFeed _
  | hash => exact .hash _
  | leftBracket => exact .leftBracket _
  | rightBracket => exact .rightBracket _
  | comma => exact .comma _
  | string _ hq hbody => exact .string _ hq hbody
  | unclosed hq _ => exact absurd ⟨rfl, _, rfl, hq⟩ hclosed
  | word hw hstops => exact .word hw (hstops.append_lineFeed r)
  | stray hfeed hmarks hstops => exact .stray hfeed hmarks (hstops.append_lineFeed r)

theorem taken_concat_textEnd (xs : List (Text × Lexeme)) (gap : Text) :
    taken (xs ++ [(gap, verbatim .textEnd [])]) = taken xs ++ gap := by
  simp [taken, verbatim]

theorem taken_append_lineFeed (xs ys : List (Text × Lexeme)) (gap : Text) :
    taken (xs ++ (gap, verbatim .lineFeed ['\n']) :: ys) = taken xs ++ gap ++ '\n' :: taken ys := by
  simp [taken, verbatim]

/-- The closing lexeme makes room for a line feed and what is behind it. -/
theorem IsSequence.append_lineFeed (h : IsSequence (xs ++ [(gap, verbatim .textEnd [])]))
    (hclosed : ∀ p ∈ xs, ¬ p.2.IsUnclosed) (hjoin : ¬ JoinsNext (taken xs ++ gap))
    (hys : IsSequence ys) : IsSequence (xs ++ (gap, verbatim .lineFeed ['\n']) :: ys) := by
  induction xs with
  | nil =>
    have hgap : IsGap gap := by
      cases h with
      | last hgap => exact hgap
      | cons _ _ hend _ _ => exact absurd rfl hend
    exact .cons hgap (flush_cons (by decide) (by decide) _) (by rintro ⟨⟩) (.lineFeed _) hys
  | cons p xs ih =>
    obtain ⟨hp, hclosed⟩ := List.forall_mem_cons.mp hclosed
    rw [List.cons_append] at h ⊢
    obtain ⟨hgap, hflush, hx, hheads, htail⟩ := (isSequence_cons_iff (by simp)).mp h
    rw [taken_concat_textEnd] at hflush hheads
    have hsuffix : p.2.text ++ (taken xs ++ gap) <:+ taken (p :: xs) ++ gap :=
      ⟨p.1, by simp [taken]⟩
    have hjoin' : ¬ JoinsNext (p.2.text ++ (taken xs ++ gap)) :=
      fun hj => hjoin (hj.of_isSuffix hsuffix)
    refine .cons hgap ?_ hx ?_ (ih htail hclosed fun hj =>
      hjoin' (hj.of_isSuffix (List.suffix_append _ _)))
    · rw [taken_append_lineFeed, ← List.append_assoc]
      exact hflush.append_lineFeed (fun h => hjoin' (h ▸ by decide))
        (fun h => hjoin' (h ▸ by decide)) _
    · rw [taken_append_lineFeed]
      exact hheads.append_lineFeed hx hp _

/-! ## In front of a line feed -/

/-- No backslash of a gap is left for a line feed behind it. -/
theorem IsGap.not_joinsNext (h : IsGap gap) (ht : ¬ JoinsNext t) : ¬ JoinsNext (gap ++ t) := by
  induction h with
  | nil => exact ht
  | @spacing c gap hc _ ih =>
    rw [List.cons_append, joinsNext_cons_iff]
    rintro (⟨rfl, -⟩ | hjoin)
    · cases hc
    · exact ih hjoin
  | join _ ih => simpa [joinsNext_cons_iff] using ih
  | joinReturn _ ih => simpa [joinsNext_cons_iff] using ih

/-- Words end in no backslash and in no carriage return. -/
theorem IsUnits.getLast?_ne {w : Text} (hw : IsUnits w) {c : Char} (hc : c ∈ w.getLast?) :
    c ≠ '\\' ∧ c ≠ '\r' := by
  induction hw with
  | nil => cases hc
  | @plain d w hd hw ih =>
    cases w with
    | nil =>
      obtain rfl := Option.some.inj hc
      constructor
      · rintro rfl
        cases hd
      · rintro rfl
        cases hd
    | cons e w => exact ih (by simpa using hc)
  | @escaped w hw ih =>
    cases w with
    | nil =>
      obtain rfl := Option.some.inj hc
      decide
    | cons e w => exact ih (by simpa using hc)

/-- A lexeme that ends in a backslash or a carriage return is this character
alone, unless it is a quote that is not closed. -/
theorem Heads.text_eq (h : Heads x r) (hclosed : ¬ x.IsUnclosed) {c : Char}
    (hc : c = '\\' ∨ c = '\r') (hlast : c ∈ x.text.getLast?) : x.text = [c] := by
  cases h with
  | textEnd => cases hlast
  | unclosed hq _ => exact absurd ⟨rfl, _, rfl, hq⟩ hclosed
  | lineFeed | hash | leftBracket | rightBracket | comma =>
    obtain rfl := Option.some.inj hlast
    rfl
  | @string q body _ hq _ =>
    have hquote : (q :: body ++ [q]).getLast? = some c := hlast
    obtain rfl : q = c := by simpa only [List.getLast?_concat, Option.some.injEq] using hquote
    rcases hq with rfl | rfl <;> simp at hc
  | word hw _ =>
    have hne := hw.units.getLast?_ne hlast
    exact absurd hc (not_or.mpr hne)
  | stray =>
    obtain rfl := Option.some.inj hlast
    rfl

/-- A lexeme with something behind it is no quote that is not closed. -/
theorem Heads.not_isUnclosed (h : Heads x r) (hr : r ≠ []) : ¬ x.IsUnclosed := by
  rintro ⟨hkind, q, hhead, hq⟩
  cases h with
  | unclosed => exact hr rfl
  | word hw _ =>
    have hmarks := hw.head q hhead
    rcases hq with rfl | rfl <;> exact hmarks (by decide)
  | @stray c _ _ hmarks _ =>
    obtain rfl := Option.some.inj hhead
    rcases hq with rfl | rfl <;> exact hmarks (by decide)
  | _ => cases hkind

/-- A line feed that is a lexeme has no quote in front of it that is not
closed. -/
theorem IsSequence.not_isUnclosed (h : IsSequence (xs ++ ys)) (hys : taken ys ≠ []) :
    ∀ p ∈ xs, ¬ p.2.IsUnclosed := by
  induction xs with
  | nil => simp
  | cons p xs ih =>
    have hne : xs ++ ys ≠ [] := by
      rintro hnil
      rw [(List.append_eq_nil_iff.mp hnil).2] at hys
      exact hys rfl
    obtain ⟨-, -, -, hheads, htail⟩ := (isSequence_cons_iff hne).mp h
    refine List.forall_mem_cons.mpr ⟨hheads.not_isUnclosed ?_, ih htail⟩
    rw [taken_append]
    exact List.append_ne_nil_of_right_ne_nil _ hys

/-- A text in front of one that does not join the next line decides on it by its
last character. -/
theorem JoinsNext.eq_or_eq {u : Text} {c : Char} (h : JoinsNext (u ++ c :: t))
    (ht : ¬ JoinsNext t) : c = '\\' ∨ c = '\r' := by
  induction u with
  | nil =>
    rcases joinsNext_cons_iff.mp h with ⟨rfl, -⟩ | h
    · exact .inl rfl
    · exact absurd h ht
  | cons d u ih =>
    rcases joinsNext_cons_iff.mp h with ⟨-, hnil | hreturn⟩ | h
    · simp at hnil
    · have hc : c ∈ ['\r'] := hreturn ▸ List.mem_append_right u List.mem_cons_self
      exact .inr (List.mem_singleton.mp hc)
    · exact ih h

/-- A lexeme in front of a text that does not join the next line only does so if
it is a backslash with nothing behind it. -/
theorem Heads.eq_backslash (h : Heads x r) (hclosed : ¬ x.IsUnclosed)
    (hjoin : JoinsNext (x.text ++ t)) (ht : ¬ JoinsNext t) :
    x.text = ['\\'] ∧ (t = [] ∨ t = ['\r']) := by
  rcases List.eq_nil_or_concat' x.text with hnil | ⟨u, c, htext⟩
  · rw [hnil] at hjoin
    exact absurd hjoin ht
  · have hc : c = '\\' ∨ c = '\r' := by
      rw [htext, List.append_assoc] at hjoin
      exact hjoin.eq_or_eq ht
    have hone : x.text = [c] := h.text_eq hclosed hc (by rw [htext, List.getLast?_concat]; rfl)
    rw [hone] at hjoin ⊢
    rcases joinsNext_cons_iff.mp hjoin with ⟨rfl, hnil⟩ | hjoin
    · exact ⟨rfl, hnil⟩
    · exact absurd hjoin ht

/-- No backslash in front of a line feed belongs to a lexeme. -/
theorem Heads.not_joinsNext (h : Heads x (t ++ '\n' :: r))
    (hflush : Flush (x.text ++ (t ++ '\n' :: r))) (ht : ¬ JoinsNext t) :
    ¬ JoinsNext (x.text ++ t) := by
  intro hjoin
  obtain ⟨htext, rfl | rfl⟩ := h.eq_backslash (h.not_isUnclosed (by simp)) hjoin ht
  · rw [htext] at hflush
    cases hflush _ (.join .nil) (List.prefix_append ['\\', '\n'] r)
  · rw [htext] at hflush
    cases hflush _ (.joinReturn .nil) (List.prefix_append ['\\', '\r', '\n'] r)

/-- A line feed that is a lexeme has no backslash in front of it. -/
theorem IsSequence.not_joinsNext (h : IsSequence (xs ++ (gap, verbatim .lineFeed ['\n']) :: ys)) :
    ¬ JoinsNext (taken xs ++ gap) := by
  induction xs with
  | nil =>
    cases h with
    | cons hgap =>
      have hjoin := hgap.not_joinsNext (t := []) (by decide)
      rwa [List.append_nil] at hjoin
  | cons p xs ih =>
    rw [List.cons_append] at h
    obtain ⟨hgap, hflush, -, hheads, htail⟩ := (isSequence_cons_iff (by simp)).mp h
    rw [taken_append_lineFeed] at hflush hheads
    have hjoin := hgap.not_joinsNext (hheads.not_joinsNext hflush (ih htail))
    rwa [← List.append_assoc, ← List.append_assoc] at hjoin

/-- **When a line feed is a lexeme**: if the text in front of it closes its
quotes and does not join the next line, and otherwise not.  The two texts then
split as they do alone. -/
theorem isSequence_append_lineFeed_iff :
    IsSequence (xs ++ (gap, verbatim .lineFeed ['\n']) :: ys) ↔
      IsSequence (xs ++ [(gap, verbatim .textEnd [])]) ∧ IsSequence ys ∧
        (∀ p ∈ xs, ¬ p.2.IsUnclosed) ∧ ¬ JoinsNext (taken xs ++ gap) := by
  constructor
  · intro h
    have hbehind : IsSequence ((gap, verbatim .lineFeed ['\n']) :: ys) := h.of_append (by simp)
    obtain ⟨hgap, hys⟩ : IsGap gap ∧ IsSequence ys := by
      cases hbehind with
      | cons hgap _ _ _ hys => exact ⟨hgap, hys⟩
    refine ⟨h.cut (by simp) (.last hgap) ?_, hys, h.not_isUnclosed ?_, h.not_joinsNext⟩
    · exact ⟨'\n' :: taken ys, by simp [taken, verbatim]⟩
    · simp [taken, verbatim]
  · rintro ⟨h, hys, hclosed, hjoin⟩
    exact h.append_lineFeed hclosed hjoin hys

/-! ## Texts with a line feed between them -/

theorem IsSequence.exists_concat (h : IsSequence xs) :
    ∃ us gap, xs = us ++ [(gap, verbatim .textEnd [])] := by
  induction h with
  | @last gap _ => exact ⟨[], gap, rfl⟩
  | @cons gap x xs _ _ _ _ _ ih =>
    obtain ⟨us, gap', rfl⟩ := ih
    exact ⟨(gap, x) :: us, gap', rfl⟩

/-- **A line feed behind a text is a lexeme**, and the lexemes in front of it
and behind it are those of the two texts, if the first one closes its quotes and
does not join the next line. -/
theorem exists_sequence_append_lineFeed {a : Text} (hclosed : ∀ p ∈ sequence a, ¬ p.2.IsUnclosed)
    (hjoin : ¬ JoinsNext a) (b : Text) :
    ∃ us gap, a = taken us ++ gap ∧ sequence a = us ++ [(gap, verbatim .textEnd [])] ∧
      sequence (a ++ '\n' :: b) = us ++ (gap, verbatim .lineFeed ['\n']) :: sequence b := by
  obtain ⟨us, gap, ha⟩ := (isSequence_sequence a).exists_concat
  obtain ⟨htext, hsequence⟩ := sequence_eq_iff.mp ha
  rw [taken_concat_textEnd] at htext
  refine ⟨us, gap, htext, ha, sequence_eq_iff.mpr ⟨?_, ?_⟩⟩
  · rw [taken_append_lineFeed, taken_sequence, ← htext]
  · refine isSequence_append_lineFeed_iff.mpr ⟨hsequence, isSequence_sequence b, ?_, htext ▸ hjoin⟩
    exact fun p hp => hclosed p (ha ▸ List.mem_append_left _ hp)

theorem Heads.eq_lineFeed (h : Heads x r) (hx : x.kind = .lineFeed) :
    x = verbatim .lineFeed ['\n'] := by
  cases h with
  | lineFeed => rfl
  | @word w =>
    have hne : Kind.ofWord w ≠ .lineFeed := by
      unfold Kind.ofWord
      split <;> simp
    exact absurd hx hne
  | _ => cases hx

/-- **Which texts have a line feed as a lexeme**: those that have one with a
text in front of it that does not take it in. -/
theorem exists_lineFeed_mem_sequence_iff :
    (∃ p ∈ sequence t, p.2.kind = .lineFeed) ↔
      ∃ a b, t = a ++ '\n' :: b ∧ (∀ p ∈ sequence a, ¬ p.2.IsUnclosed) ∧ ¬ JoinsNext a := by
  constructor
  · rintro ⟨⟨gap, x⟩, hmem, hkind⟩
    obtain ⟨xs, ys, ht⟩ := List.append_of_mem hmem
    obtain ⟨rfl, hsequence⟩ := sequence_eq_iff.mp ht
    obtain rfl : x = verbatim .lineFeed ['\n'] := by
      have hbehind : IsSequence ((gap, x) :: ys) := hsequence.of_append (by simp)
      cases hbehind with
      | last => cases hkind
      | cons _ _ _ hheads _ => exact hheads.eq_lineFeed hkind
    obtain ⟨hfront, -, hclosed, hjoin⟩ := isSequence_append_lineFeed_iff.mp hsequence
    refine ⟨taken xs ++ gap, taken ys, taken_append_lineFeed xs ys gap, ?_, hjoin⟩
    rw [← taken_concat_textEnd, hfront.sequence_taken, List.forall_mem_append]
    refine ⟨hclosed, ?_⟩
    rintro _ hend ⟨hillegal, -⟩
    obtain rfl := List.mem_singleton.mp hend
    cases hillegal
  · rintro ⟨a, b, rfl, hclosed, hjoin⟩
    obtain ⟨us, gap, -, -, hjoined⟩ := exists_sequence_append_lineFeed hclosed hjoin b
    refine ⟨(gap, verbatim .lineFeed ['\n']), ?_, rfl⟩
    rw [hjoined]
    exact List.mem_append_right us List.mem_cons_self

end Recipe.Lexeme
