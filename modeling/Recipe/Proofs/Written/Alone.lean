import Recipe.Proofs.Line.Joined
import Recipe.Proofs.Written.RoundTrip

/-!
# Written lines, each on its own

A line that is kept as a list of words is read back from its written form, also
where nothing stands behind it, if and only if none of its words is glued to a
bare word or to the keyword.  Strings do not stand in the way of that: whatever
a source has between quotes lacks one of the two quotes, so it is written in
quotes that it does not hold.

## How the proof goes

What is read of a line with a line feed behind it is known from where whole
programs are written (`Statement.Spelled.parse_line_of_unglued` and
`Statement.Spelled.parse_line_of_glued`).  Without the line feed the same tokens
are read, with another end behind them (`Statement.Spelled.scan_written`), and
the end of a line only matters for what a fault has found there.
-/

namespace Recipe

open Token (scan glue InLine)

namespace Statement.Spelled

variable {s : Statement} {h : Token} {ts : List Token}

/-- The tokens of a written statement with nothing behind it. -/
theorem scan_written (hs : s.Spelled h ts) :
    scan s.written = (glue h ts).map Move.forget.token ++ [.bare .textEnd []] := by
  have hspell := Token.scan_spell hs.regular Token.stops_nil
  rwa [List.append_nil, ← hs.written, Token.scan_nil] at hspell

/-- It does not matter for a written statement whether its line goes on to a
line feed or to the end of the text, but for what a fault has found there. -/
theorem parse_alone (hs : s.Spelled h ts) (o : Options) :
    (parseTokens o (line h ts)).program.toList =
        (parse o s.written).program.toList.map Move.forget.statement ∧
      (parseTokens o (line h ts)).faults =
        ((parse o s.written).faults.map Move.forget.fault).map
          (Fault.withEnd (Move.forget.token Token.feed)) := by
  have hinLine : InLine ((glue h ts).map Move.forget.token) :=
    InLine.map (fun t ht => (hs.isPiece t ht).2) _
  have hfeed : (Move.forget.token Token.feed).kind.isLineEnd := rfl
  have hends := parseTokens_withEnd (e := .bare .textEnd []) o hinLine rfl hfeed
  rwa [← hs.scan_written, (parseTokens_scan o _).1, (parseTokens_scan o _).2, ← List.map_singleton,
    ← List.map_append] at hends

/-- A statement is read back from its written form exactly if its words stay
apart. -/
theorem parse_alone_iff (hs : s.Spelled h ts) :
    ((parse .strict s.written).faults = [] ∧
        (parse .strict s.written).program.toList.map Move.forget.statement =
          [Move.forget.statement s.normal]) ↔ s.Unglued := by
  obtain ⟨hstatements, hfaults⟩ := hs.parse_alone .strict
  have hclean : (parse .strict s.written).faults = [] ↔
      (parseTokens .strict (line h ts)).faults = [] := by
    rw [hfaults, List.map_eq_nil_iff, List.map_eq_nil_iff]
  rw [hclean, ← hstatements]
  constructor
  · rintro ⟨hclean, hread⟩
    by_contra hglued
    rcases hs.parse_line_of_glued hglued with hfault | ⟨s', hs', hne⟩
    · exact hfault hclean
    · rw [hs'] at hread
      exact hne (List.cons.inj hread).1
  · intro hunglued
    exact (hs.parse_line_of_unglued hunglued).symm

end Statement.Spelled

/-- A line without a grammar has nothing glued if none of its words is glued to
the keyword or to the word in front of it. -/
theorem Statement.unglued_other_iff {k : Keyword} {ws : List Word} {span : Span} :
    (other k ws span).Unglued ↔ (∀ w ∈ ws.head?, ¬ w.kind.isClosing) ∧
      ws.IsChain fun v w => v.kind.Apart w.kind := by
  rw [Unglued, List.isChain_cons, List.isChain_map]
  refine and_congr ?_ Iff.rfl
  cases ws with
  | nil => simp
  | cons w ws => simp [Kind.Apart, Kind.isBare]

/-- A string of a source is read back from its written form, whatever stands
behind it. -/
theorem Token.scan_written_of_string {source : Text} {t : Token} (ht : t ∈ ofSource source)
    (hstring : t.kind = .string) (r : Text) :
    scan (t.word.written ++ r) = .bare .string t.literal :: scan r := by
  have hadmits := admits_of_mem_ofSource ht
  rw [hstring] at hadmits
  have hwritten : t.word.written = Word.quote t.literal := if_pos hstring
  rw [hwritten]
  exact Word.scan_quote hadmits r

/-- **A line is read back from its written form exactly if nothing is glued in
it.**  Whatever source a line without a grammar comes from, its written form has
no faults and is read as that line alone if and only if the first of its words
is no closing mark and no closing mark stands directly behind a bare word.
Strings are always read back, whatever is written behind them. -/
theorem parse_written_other_iff {o : Options} {source : Text} {k : Keyword} {ws : List Word}
    {span : Span} (hs : .other k ws span ∈ (parse o source).program.toList) :
    let s : Statement := .other k ws span
    (((parse .strict s.written).faults = [] ∧
        (parse .strict s.written).program.toList.map Move.forget.statement =
          [Move.forget.statement s]) ↔
      (∀ w ∈ ws.head?, ¬ w.kind.isClosing) ∧ ws.IsChain fun v w => v.kind.Apart w.kind) ∧
      ∀ t ∈ Token.ofSource source, t.kind = .string → ∀ r : Text,
        (Token.ofSource (t.word.written ++ r)).map Move.forget.token =
          .bare .string t.literal :: (Token.ofSource r).map Move.forget.token := by
  intro s
  constructor
  · obtain ⟨h, ts, hspelled⟩ := exists_spelled_of_mem_parse hs
    rw [← Statement.unglued_other_iff]
    exact hspelled.parse_alone_iff
  · intro t ht hstring r
    rw [Token.map_forget_ofSource, Token.map_forget_ofSource]
    exact Token.scan_written_of_string ht hstring r

/-- A line with a string in each sort of quotes, one of them over two lines, and
with blanks where none are written. -/
theorem parse_written_other_iff_quoted :
    let source : Text := "CMD\t[ 'a\"' ,\"b\nc\" ] d #".toList
    let ws : List Word :=
      [⟨.leftBracket, ['['], ⟨4, 5⟩⟩, ⟨.string, ['a', '"'], ⟨6, 10⟩⟩, ⟨.comma, [','], ⟨11, 12⟩⟩,
        ⟨.string, ['b', '\n', 'c'], ⟨12, 17⟩⟩, ⟨.rightBracket, [']'], ⟨18, 19⟩⟩,
        ⟨.word, ['d'], ⟨20, 21⟩⟩, ⟨.hash, ['#'], ⟨22, 23⟩⟩]
    let s : Statement := .other .cmd ws ⟨0, 23⟩
    s ∈ (parse .strict source).program.toList ∧
      (parse .strict s.written).faults = [] ∧
      (parse .strict s.written).program.toList.map Move.forget.statement =
        [Move.forget.statement s] ∧
      ∀ t ∈ Token.ofSource source, t.kind = .string → ∀ r : Text,
        (Token.ofSource (t.word.written ++ r)).map Move.forget.token =
          .bare .string t.literal :: (Token.ofSource r).map Move.forget.token := by
  intro source ws s
  have hs : s ∈ (parse .strict source).program.toList := by decide +kernel
  obtain ⟨hiff, hstrings⟩ := parse_written_other_iff hs
  obtain ⟨hclean, hread⟩ := hiff.mpr ⟨by decide, by decide⟩
  exact ⟨hs, hclean, hread, hstrings⟩

end Recipe
