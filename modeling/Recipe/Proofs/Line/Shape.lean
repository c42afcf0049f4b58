import Recipe.Proofs.Line.Spans
import Recipe.Proofs.Written.Normal

/-!
# The shape of a program

A program is recorded statement by statement, in the order of the lines
(`Program.isSplit_ofStatements`).  A statement reaches from the token that
introduces it to its last word, so statements are as far apart as their lines
are.
-/

namespace Recipe

/-! ## Statements -/

/-- The token introduces the statement: the statement starts with it and reaches
to the end of its last word.  The words stand behind the token, one behind the
other. -/
structure Token.Introduces (h : Token) (s : Statement) : Prop where
  literal : h.literal = s.head
  /-- The statement ends with the token if there are no words. -/
  span : s.span = ⟨h.span.start, (s.wordSpans.getLastD h.span).stop⟩
  /-- There are words, unless the line is kept as words and has none. -/
  bare : s.wordSpans = [] → ∃ k span, s = .other k [] span
  nonempty : ∀ a ∈ h.span :: s.wordSpans, a.start < a.stop
  ordered : (h.span :: s.wordSpans).Pairwise Span.Before
  inside : ∀ a ∈ h.span :: s.wordSpans, s.span.start ≤ a.start ∧ a.stop ≤ s.span.stop

theorem Statement.exists_other_of_wordSpans {s : Statement} (h : s.wordSpans = []) :
    ∃ k span, s = .other k [] span := by
  cases s with
  | other k words span =>
    rw [wordSpans_other, List.map_eq_nil_iff] at h
    exact ⟨k, span, by rw [h]⟩
  | _ => simp at h

namespace Forms

variable {h : Token} {ts : List Token} {s : Statement}

/-- The last word of a statement is its last token. -/
theorem getLast?_wordSpans (hforms : Forms (h :: ts) s) :
    s.wordSpans.getLast? = ts.getLast?.map Token.span := by
  cases hforms with
  | other =>
    rw [Statement.wordSpans_other, List.map_map, List.getLast?_map]
    rfl
  | _ => simp [Token.identifier]

/-- The head of a statement introduces it. -/
theorem introduces (hforms : Forms (h :: ts) s) (hadmits : ∀ t ∈ h :: ts, t.kind.Admits t.literal)
    (hordered : Token.InOrder (h :: ts)) (hnonempty : ∀ t ∈ h :: ts, t.span.start < t.span.stop) :
    h.Introduces s := by
  have hwords := hforms.sublist_wordSpans hadmits
  have hall : (h.span :: s.wordSpans).Sublist ((h :: ts).map Token.span) := hwords.cons_cons h.span
  have hlast : s.wordSpans.getLastD h.span = (ts.getLastD h).span := by
    rw [List.getLastD_eq_getLast?, List.getLastD_eq_getLast?, hforms.getLast?_wordSpans,
      Option.getD_map]
  have hspan : s.span = ⟨h.span.start, (ts.getLastD h).span.stop⟩ :=
    hforms.span_eq.trans (hordered.merge_span hnonempty)
  have hmem {a : Span} (ha : a ∈ h.span :: s.wordSpans) : ∃ t ∈ h :: ts, t.span = a :=
    List.mem_map.mp (hall.subset ha)
  refine ⟨hforms.literal_eq_head (hadmits h List.mem_cons_self), by rw [hspan, hlast],
    Statement.exists_other_of_wordSpans, ?_, (List.pairwise_map.mpr hordered).sublist hall, ?_⟩
  · intro a ha
    obtain ⟨t, ht, rfl⟩ := hmem ha
    exact hnonempty t ht
  · intro a ha
    obtain ⟨t, ht, rfl⟩ := hmem ha
    rw [hspan]
    exact ⟨hordered.start_le_of_mem ht, hordered.stop_le_of_mem hnonempty ht⟩

end Forms

section Source

open Token (lines ofSource)

variable {o : Options} {source : Text} {s : Statement}

/-- A line starts with the token that introduces its statement, and the
statement ends with a token of the line. -/
theorem exists_introduces_of_mem_line {l : List Token} (hsize : source.byteSize ≤ largest)
    (hl : l ∈ lines (ofSource source)) (hs : s ∈ (parseTokens o l).program.toList) :
    ∃ h ∈ l.head?, h.Introduces s ∧ ∃ u ∈ l, s.span.stop = u.span.stop := by
  have hsublist := Token.sublist_of_mem_lines hl
  obtain ⟨ws, e, hws, he, rfl⟩ := (Token.Closed.ofSource source).exists_of_mem_lines hl
  obtain ⟨h, ts, t, r, hline, hforms, -, -⟩ := exists_forms_of_mem_line hws he hs
  have hprefix : (h :: ts).Sublist (ws ++ [e]) := hline ▸ List.sublist_append_left _ _
  have htaken : (h :: ts).Sublist (ofSource source) := hprefix.trans hsublist
  have hordered := (Token.inOrder_ofSource hsize).sublist htaken
  have hnonempty : ∀ t ∈ h :: ts, t.span.start < t.span.stop := by
    intro t ht
    apply (Token.laid_ofSource hsize).nonempty t (htaken.subset ht)
    have hinline := hws t ((Token.prefix_of_append hline).subset ht)
    intro hend
    exact hinline (by rw [hend]; rfl)
  have hintroduces := hforms.introduces
    (fun t ht => Token.admits_of_mem_ofSource (htaken.subset ht)) hordered hnonempty
  refine ⟨h, by rw [hline]; rfl, hintroduces, ts.getLastD h, ?_, ?_⟩
  · exact hprefix.subset List.getLastD_mem_cons
  · rw [hforms.span_eq, hordered.merge_span hnonempty]

/-- Statements are in the order of their lines. -/
theorem pairwise_statements (o : Options) (hsize : source.byteSize ≤ largest) :
    ((lines (ofSource source)).flatMap fun l => (parseTokens o l).program.toList).Pairwise
      fun s t => s.span.Before t.span := by
  have hclosed := Token.Closed.ofSource source
  refine (Token.inOrder_ofSource hsize).pairwise_flatMap_lines
    (fun l hl => (hclosed.length_parseTokens_le hl).1) ?_
  intro l hl m hm hlm s hs t ht
  obtain ⟨h, hh, hintroduces, u, hu, hstop⟩ := exists_introduces_of_mem_line hsize hl hs
  obtain ⟨h', hh', hintroduces', -⟩ := exists_introduces_of_mem_line hsize hm ht
  have hmem := List.mem_of_mem_head? hh
  have hmem' := List.mem_of_mem_head? hh'
  constructor
  · rw [hintroduces.span, hintroduces'.span]
    exact (hlm h hmem h' hmem').start_lt
  · rw [hstop, hintroduces'.span]
    exact (hlm u hu h' hmem').stop_le

/-- **The shape of a program**, whatever the options, if its source is not too
long for its offsets.  Its directives and its statements are what the lines of
the source yield, in their order, and the directives are the longest run of
comments that they start with; they have been so whenever a statement had been
recorded.  Every statement reaches from the first token of its line to its last
word, with its words in order in between, and it ends in front of the next
one. -/
theorem shape_parse (o : Options) {source : Text} (hsize : source.byteSize ≤ largest) :
    let p := (parse o source).program
    let recorded := (lines (ofSource source)).flatMap fun l => (parseTokens o l).program.toList
    p.IsSplit recorded ∧
      (∀ l ∈ lines (ofSource source), ∀ s ∈ (parseTokens o l).program.toList,
        ∃ h ∈ l.head?, h.Introduces s) ∧
      recorded.Pairwise (fun s t => s.span.Before t.span) ∧
      p = recorded.foldl Program.record .empty ∧
      ∀ ss, ss <+: recorded → (ss.foldl Program.record .empty).IsSplit ss := by
  intro p recorded
  have hlist : p.toList = recorded := (Token.Closed.ofSource source).toList_parseTokens
  have hprogram : p = .ofStatements recorded := hlist ▸ program_parseTokens o (ofSource source)
  refine ⟨Program.isSplit_iff.mpr hprogram, ?_, pairwise_statements o hsize, ?_, ?_⟩
  · intro l hl s hs
    obtain ⟨h, hh, hintroduces, -⟩ := exists_introduces_of_mem_line hsize hl hs
    exact ⟨h, hh, hintroduces⟩
  · exact hprogram
  · exact fun ss _ => Program.isSplit_ofStatements ss

/-- A directive, a faulty line, a stage with a word too many, and a comment
behind it. -/
theorem shape_parse_stage :
    let source : Text := "# a\nFROM\nFROM --b=c d e\n# f".toList
    let p := (parse .strict source).program
    let recorded := (lines (ofSource source)).flatMap fun l =>
      (parseTokens .strict l).program.toList
    source.byteSize ≤ largest ∧ recorded.map Statement.span = [⟨0, 3⟩, ⟨9, 21⟩, ⟨24, 27⟩] ∧
      p.IsSplit recorded ∧
      recorded.Pairwise (fun s t => s.span.Before t.span) ∧
      ∃ l ∈ lines (ofSource source), ∃ s ∈ (parseTokens .strict l).program.toList,
        ∃ h ∈ l.head?, h.Introduces s := by
  intro source p recorded
  have hsize : source.byteSize ≤ largest := by decide +kernel
  have hspans : recorded.map Statement.span = [⟨0, 3⟩, ⟨9, 21⟩, ⟨24, 27⟩] := by decide +kernel
  obtain ⟨s, hs⟩ : ∃ s, s ∈ recorded := List.exists_mem_of_ne_nil _ (by decide +kernel)
  obtain ⟨l, hl, hs⟩ := List.mem_flatMap.mp hs
  obtain ⟨hsplit, hintroduces, hordered, -⟩ := shape_parse .strict hsize
  exact ⟨hsize, hspans, hsplit, hordered, l, hl, s, hs, hintroduces l hl s hs⟩

end Source

end Recipe
