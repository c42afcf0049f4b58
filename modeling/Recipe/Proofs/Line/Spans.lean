import Recipe.Proofs.Line.Options
import Recipe.Proofs.Line.Order
import Recipe.Proofs.Line.Parts
import Recipe.Proofs.Line.Verdict

/-!
# The spans of a reading

Whatever is read of a source and whatever is reported of it comes with spans.
Every one of them covers a piece of the source: those of faults and of words are
the spans of tokens, and a statement reaches from one token to another.  Faults
come in the order of the tokens that they show, and no line has two of them.
-/

namespace Recipe

/-- The span covers a piece of the source, so that its length can be taken. -/
structure Span.LiesIn (s : Span) (source : Text) : Prop where
  start_le_stop : s.start ≤ s.stop
  stop_le_byteSize : s.stop ≤ source.byteSize
  length : s.length? = some (s.stop - s.start)
  piece : ∃ piece, source.slice? s = some piece

theorem Span.LiesIn.of_slice? {s : Span} {source piece : Text}
    (h : source.slice? s = some piece) : s.LiesIn source := by
  obtain ⟨l, r, rfl, hstart, hstop⟩ := Text.slice?_eq_some_iff.mp h
  have hle : s.start ≤ s.stop := by
    rw [hstart, hstop, Text.byteSize_append]
    exact Nat.le_add_right _ _
  have hsize : s.stop ≤ (l ++ piece ++ r).byteSize := by
    rw [hstop, Text.byteSize_append _ r]
    exact Nat.le_add_right _ _
  exact ⟨hle, hsize, if_pos hle, piece, h⟩

/-- The fault shows the token: it has the place of that token. -/
def Fault.Shows (f : Fault) (t : Token) : Prop := f.span = t.span ∧ f.position = t.position

/-- The spans of the words that a statement holds, in order. -/
def Statement.wordSpans (s : Statement) : List Span := s.parts.filterMap Part.span?

/-- The span of a statement, and those of its words. -/
def Statement.spans (s : Statement) : List Span := s.span :: s.wordSpans

/-- The spans of all faults and of all statements. -/
def Parsed.spans (p : Parsed) : List Span :=
  p.faults.map Fault.span ++ p.program.toList.flatMap Statement.spans

/-! ## The words of a statement -/

/-- Parts have no spans but those of the tokens they stand for. -/
theorem Part.IsOf.sublist_spans {ps : List Part} {ts : List Token}
    (h : List.Forall₂ IsOf ps ts) : (ps.filterMap Part.span?).Sublist (ts.map Token.span) := by
  induction h with
  | nil => exact .slnil
  | @cons p t ps ts hp _ ih =>
    rw [List.map_cons]
    cases hspan : p.span? with
    | none =>
      rw [List.filterMap_cons_none hspan]
      exact ih.cons _
    | some s =>
      rw [List.filterMap_cons_some hspan, hp.2.2 s hspan]
      exact ih.cons_cons _

namespace Statement

/-- The first part of a statement is its head, which has no span. -/
theorem exists_parts (s : Statement) : ∃ p ps, s.parts = p :: ps ∧ p.span? = none := by
  cases s with
  | fromImage _ _ stage? => cases stage? <;> exact ⟨_, _, rfl, rfl⟩
  | arg _ _ _ valueWord? => cases valueWord? <;> exact ⟨_, _, rfl, rfl⟩
  | _ => exact ⟨_, _, rfl, rfl⟩

section

variable (flags : List Flag) (word word' : Identifier) (span : Span)

theorem filterMap_ofFlag : (flags.map Part.ofFlag).filterMap Part.span? = flags.map Flag.span := by
  rw [List.filterMap_map]
  exact congrFun List.filterMap_eq_map flags

@[simp] theorem wordSpans_comment : (comment word span).wordSpans = [word.span] := rfl

@[simp] theorem wordSpans_fromImage (stage? : Option Identifier) :
    (fromImage flags word stage? span).wordSpans =
      flags.map Flag.span ++ word.span :: (stage?.map Identifier.span).toList := by
  cases stage? with
  | none => exact List.filterMap_append.trans (congrArg (· ++ _) (filterMap_ofFlag flags))
  | some stage => exact List.filterMap_append.trans (congrArg (· ++ _) (filterMap_ofFlag flags))

@[simp] theorem wordSpans_arg (name : Text) (value? : Option Text)
    (valueWord? : Option Identifier) :
    (arg word name value? valueWord? span).wordSpans =
      word.span :: (valueWord?.map Identifier.span).toList := by
  cases valueWord? <;> rfl

@[simp] theorem wordSpans_copy :
    (copy flags word word' span).wordSpans = flags.map Flag.span ++ [word.span, word'.span] :=
  List.filterMap_append.trans (congrArg (· ++ _) (filterMap_ofFlag flags))

@[simp] theorem wordSpans_other (k : Keyword) (words : List Word) :
    (other k words span).wordSpans = words.map Word.span := by
  rw [wordSpans, parts, List.filterMap_cons_none rfl, List.filterMap_map]
  exact congrFun List.filterMap_eq_map words

end

end Statement

/-- The words of a statement stand behind its head. -/
theorem Forms.sublist_wordSpans {h : Token} {ts : List Token} {s : Statement}
    (hforms : Forms (h :: ts) s) (hadmits : ∀ t ∈ h :: ts, t.kind.Admits t.literal) :
    s.wordSpans.Sublist (ts.map Token.span) := by
  have hparts := hforms.forall₂_parts hadmits
  obtain ⟨p, ps, hs, hspan⟩ := s.exists_parts
  rw [hs] at hparts
  rw [Statement.wordSpans, hs, List.filterMap_cons_none hspan]
  cases hparts with
  | cons _ hps => exact Part.IsOf.sublist_spans hps

/-! ## Spans of a source -/

section Source

open Token (lines ofSource)

variable {o : Options} {source : Text}

theorem Token.liesIn_of_mem_ofSource {t : Token} (hsize : source.byteSize ≤ largest)
    (ht : t ∈ ofSource source) : t.span.LiesIn source := by
  obtain ⟨text, hslice, -⟩ := (laid_ofSource hsize).spelled t ht
  exact .of_slice? hslice

/-- The spans of a statement lie in the source. -/
theorem liesIn_of_mem_spans {s : Statement} {a : Span} (hsize : source.byteSize ≤ largest)
    (hs : s ∈ (parse o source).program.toList) (ha : a ∈ s.spans) : a.LiesIn source := by
  obtain ⟨as, h, ts, bs, hsource, hbs, -, hforms, -⟩ := exists_forms_of_mem_parse hs
  have hmem : ∀ t ∈ h :: ts, t ∈ ofSource source := by
    intro t ht
    rw [hsource]
    exact List.mem_append_right as (List.mem_append_left bs ht)
  rcases List.mem_cons.mp ha with rfl | ha
  · obtain ⟨piece, e, hslice, -⟩ := Token.exists_slice hsize hsource hbs hforms.span_eq
    exact .of_slice? hslice
  · have hwords := hforms.sublist_wordSpans fun t ht => Token.admits_of_mem_ofSource (hmem t ht)
    obtain ⟨t, ht, rfl⟩ := List.mem_map.mp (hwords.subset ha)
    exact Token.liesIn_of_mem_ofSource hsize (hmem t (List.mem_cons_of_mem h ht))

/-- What is reported of a line shows one of its tokens, whatever the options. -/
theorem exists_shows_of_mem_line {l : List Token} {f : Fault} (hl : l ∈ lines (ofSource source))
    (hf : f ∈ (parseTokens o l).faults) : ∃ t ∈ l, f.Shows t := by
  obtain ⟨ws, e, hws, he, rfl⟩ := (Token.Closed.ofSource source).exists_of_mem_lines hl
  obtain ⟨f?, hfaults, hverdict⟩ := Line.exists_verdict hws he
  rw [faults_parseTokens, Feed.readLines_eq_filter] at hf
  have hstrict : f ∈ (parseTokens .strict (ws ++ [e])).faults := by
    rw [faults_parseTokens]
    exact List.mem_of_mem_filter hf
  rw [hfaults, Option.mem_toList] at hstrict
  subst hstrict
  obtain ⟨p, t, r, hline, -, -, rfl⟩ := hverdict
  exact ⟨t, by rw [hline]; simp, rfl, rfl⟩

/-- A fault shows a token of the source. -/
theorem exists_shows_of_mem_faults {f : Fault} (hf : f ∈ (parse o source).faults) :
    ∃ t ∈ ofSource source, f.Shows t := by
  rw [parse, (Token.Closed.ofSource source).faults_parseTokens, List.mem_flatMap] at hf
  obtain ⟨l, hl, hf⟩ := hf
  obtain ⟨t, ht, hshows⟩ := exists_shows_of_mem_line hl hf
  exact ⟨t, (Token.sublist_of_mem_lines hl).subset ht, hshows⟩

/-- Faults are in the order of the source, and no two of them show tokens of one
line. -/
theorem pairwise_faults (o : Options) (hsize : source.byteSize ≤ largest) :
    (parse o source).faults.Pairwise fun f g => f.span.Before g.span ∧
      ∀ l ∈ lines (ofSource source), ∀ t ∈ l, ∀ u ∈ l, ¬ (f.Shows t ∧ g.Shows u) := by
  have hclosed := Token.Closed.ofSource source
  have hordered := Token.inOrder_ofSource hsize
  rw [parse, hclosed.faults_parseTokens]
  refine hordered.pairwise_flatMap_lines (fun l hl => (hclosed.length_parseTokens_le hl).2) ?_
  intro l hl m hm hlm f hf g hg
  obtain ⟨t, ht, hft⟩ := exists_shows_of_mem_line hl hf
  obtain ⟨u, hu, hgu⟩ := exists_shows_of_mem_line hm hg
  refine ⟨?_, ?_⟩
  · rw [hft.1, hgu.1]
    exact hlm t ht u hu
  · -- Both lines would be the one that the two tokens stand in.
    rintro n hn v hv w hw ⟨hfv, hgw⟩
    have hl' := hordered.eq_of_mem_lines hl hn ht hv (hft.1.symm.trans hfv.1)
    have hm' := hordered.eq_of_mem_lines hm hn hu hw (hgu.1.symm.trans hgw.1)
    have hbefore := hlm t ht t (by rw [hm', ← hl']; exact ht)
    exact Span.not_before_self t.span hbefore

/-- **Every span of a reading lies in its source**, whatever the options, if the
source is not too long for its offsets: it ends behind its start and in front of
the end of the source, so its length can be taken.  Every fault has the span and
the position of one token.  The faults start one behind the other, and no two of
them show tokens of one line. -/
theorem liesIn_of_mem_spans_parse (o : Options) {source : Text}
    (hsize : source.byteSize ≤ largest) :
    let p := parse o source
    (∀ s ∈ p.spans, s.LiesIn source) ∧
      (∀ f ∈ p.faults, ∃ t ∈ ofSource source, f.Shows t) ∧
      p.faults.Pairwise (fun f g => f.span.start < g.span.start) ∧
      p.faults.Pairwise fun f g =>
        ∀ l ∈ lines (ofSource source), ∀ t ∈ l, ∀ u ∈ l, ¬ (f.Shows t ∧ g.Shows u) := by
  intro p
  refine ⟨?_, fun f hf => exists_shows_of_mem_faults hf, ?_, ?_⟩
  · intro a ha
    rcases List.mem_append.mp ha with ha | ha
    · obtain ⟨f, hf, rfl⟩ := List.mem_map.mp ha
      obtain ⟨t, ht, hspan, -⟩ := exists_shows_of_mem_faults hf
      exact hspan ▸ Token.liesIn_of_mem_ofSource hsize ht
    · obtain ⟨s, hs, ha⟩ := List.mem_flatMap.mp ha
      exact liesIn_of_mem_spans hsize hs ha
  · exact (pairwise_faults o hsize).imp fun h => h.1.start_lt
  · exact (pairwise_faults o hsize).imp fun h => h.2

/-- A word too many, and a word that is missing at the end of the text. -/
theorem liesIn_of_mem_spans_parse_faulty :
    let source : Text := "ARG é b c\nFROM".toList
    let p := parse .strict source
    source.byteSize ≤ largest ∧ p.faults.map Fault.span = [⟨9, 10⟩, ⟨15, 15⟩] ∧
      (∀ s ∈ p.spans, s.LiesIn source) ∧
      (∀ f ∈ p.faults, ∃ t ∈ ofSource source, f.Shows t) ∧
      p.faults.Pairwise (fun f g => f.span.start < g.span.start) ∧
      p.faults.Pairwise fun f g =>
        ∀ l ∈ lines (ofSource source), ∀ t ∈ l, ∀ u ∈ l, ¬ (f.Shows t ∧ g.Shows u) := by
  intro source p
  have hsize : source.byteSize ≤ largest := by decide +kernel
  have hfaults : p.faults.map Fault.span = [⟨9, 10⟩, ⟨15, 15⟩] := by decide +kernel
  exact ⟨hsize, hfaults, liesIn_of_mem_spans_parse .strict hsize⟩

end Source

end Recipe
