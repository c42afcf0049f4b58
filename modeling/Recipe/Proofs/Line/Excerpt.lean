import Recipe.Proofs.Line.Kept
import Recipe.Proofs.Token.Excerpt

/-!
# Statements by themselves

The span of a statement covers the text of that statement, from its head to its
last token: read by itself, this text yields the statement and nothing to report
(`parse_slice_span`).  Neither what stands in front of the statement nor what
stands behind it, in its line or in other ones, has a say in it.
-/

namespace Recipe

open Token (InLine)

variable {o : Options} {h e : Token} {ts : List Token} {s : Statement}

/-- A line of the tokens that form a statement yields it, and no fault. -/
theorem Forms.parseTokens_eq (hforms : Forms (h :: ts) s) (hts : InLine (h :: ts))
    (hdrops : ¬ o.drops h.kind) (he : e.kind.isLineEnd) :
    (parseTokens o (h :: ts ++ [e])).program.toList = [s] ∧
      (parseTokens o (h :: ts ++ [e])).faults = [] := by
  obtain ⟨hstatements, hfaults⟩ := parseTokens_line (o := o) (List.cons_ne_nil h ts) hts he
  rw [hstatements, hfaults, List.cons_append, hforms.readLine_eq hdrops he]
  exact ⟨rfl, rfl⟩

/-- **A span covers its statement.**  The text that the span of a statement
covers in a source that is not too long for its offsets yields that statement,
`s.span.start` bytes closer to the start, and nothing else. -/
theorem parse_slice_span (o : Options) {source : Text} (hsize : source.byteSize ≤ largest)
    {s : Statement} (hs : s ∈ (parse o source).program.toList) :
    ∃ piece t, source.slice? s.span = some piece ∧ (parse o piece).faults = [] ∧
      (parse o piece).program.toList = [t] ∧ (Move.shift s.span.start).statement t = s := by
  obtain ⟨as, h, ts, bs, hsource, hbs, hts, hforms, hdrops⟩ := exists_forms_of_mem_parse hs
  obtain ⟨piece, e, hslice, he, htokens⟩ := Token.exists_slice hsize hsource hbs hforms.span_eq
  obtain ⟨hstatement, hfault⟩ :=
    hforms.parseTokens_eq (o := o) (e := e) hts hdrops (by rw [he]; rfl)
  -- The piece is read as the tokens of the statement are, but for places.
  obtain ⟨hpiece, hpiece'⟩ :=
    (Token.Closed.ofSource piece).parseTokens_map (o := o) (Move.shift s.span.start)
  obtain ⟨htaken, htaken'⟩ := (Token.Closed.last hts he).parseTokens_map (o := o) (Move.shift 0)
  rw [htokens, htaken, hstatement, Move.statement_shift_zero] at hpiece
  rw [htokens, htaken', hfault] at hpiece'
  obtain ⟨t, ht, hts⟩ := List.map_eq_singleton_iff.mp hpiece.symm
  exact ⟨piece, t, hslice, List.map_eq_nil_iff.mp hpiece'.symm, ht, hts⟩

/-- A statement that goes on in the next line and has a word too many behind
it. -/
theorem parse_slice_span_stage :
    let source : Text := "\n FROM \\\n é AS b c".toList
    let s : Statement :=
      .fromImage [] ⟨['é'], ['é'], ⟨10, 12⟩⟩ (some ⟨['b'], ['b'], ⟨16, 17⟩⟩) ⟨2, 17⟩
    source.byteSize ≤ largest ∧ s ∈ (parse .strict source).program.toList ∧
      ∃ piece t, source.slice? s.span = some piece ∧ (parse .strict piece).faults = [] ∧
        (parse .strict piece).program.toList = [t] ∧
          (Move.shift s.span.start).statement t = s := by
  intro source s
  have hsize : source.byteSize ≤ largest := by decide +kernel
  have hs : s ∈ (parse .strict source).program.toList := by decide +kernel
  exact ⟨hsize, hs, parse_slice_span .strict hsize hs⟩

end Recipe
