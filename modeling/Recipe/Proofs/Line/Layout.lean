import Recipe.Proofs.Lexeme.Layout
import Recipe.Proofs.Line.Places
import Recipe.Proofs.Token.Excerpt

/-!
# Recipes with another layout

What stands between the tokens of a recipe says nothing.  A gap may be replaced
by any other one that is not empty, in a recipe without illegal tokens, and the
tokens are the same but for their places (`Token.map_forget_ofSource_replace`);
so is what the recipe is read as (`parse_replace_gap`).
-/

namespace Recipe

open Lexeme (IsGap IsSequence taken)

/-! ## Gaps between tokens -/

/-- Whether the reader takes the text `gap` behind `l` for what stands in front
of a lexeme, in a source that goes on with `r`. -/
def Lexeme.HasGap (l gap r : Text) : Prop :=
  ∃ as x bs, sequence (l ++ gap ++ r) = as ++ (gap, x) :: bs ∧ l = taken as

namespace Token

variable {l gap gap' r : Text}

/-- The spans between tokens are those of the gaps between their lexemes. -/
theorem mem_gaps_placed_iff {p : Place} {xs : List (Text × Lexeme)} {s : Span}
    (hsize : p.offset + (taken xs).byteSize ≤ largest) :
    s ∈ gaps p.offset (placed p xs) ↔ ∃ as gap x bs, xs = as ++ (gap, x) :: bs ∧
      s = ⟨p.offset + (taken as).byteSize, p.offset + (taken as ++ gap).byteSize⟩ := by
  induction xs generalizing p with
  | nil => simp [placed, gaps]
  | cons q xs ih =>
    obtain ⟨gap, x⟩ := q
    rw [Lexeme.taken_cons, Text.byteSize_append, Text.byteSize_append] at hsize
    have hspan : (x.toToken (p.after gap)).span =
        ⟨p.offset + gap.byteSize, ((p.after gap).after x.text).offset⟩ := by
      simp only [Lexeme.toToken, Place.offset_after]
      exact Span.ofBytes_of_le (by omega) (by omega)
    have hbehind : ((p.after gap).after x.text).offset + (taken xs).byteSize ≤ largest := by
      simp only [Place.offset_after]
      omega
    rw [placed, gaps, hspan, List.mem_cons, ih hbehind]
    constructor
    · rintro (rfl | ⟨as, gap', y, bs, rfl, rfl⟩)
      · exact ⟨[], gap, x, xs, rfl, by simp [taken]⟩
      · refine ⟨(gap, x) :: as, gap', y, bs, rfl, ?_⟩
        simp only [Place.offset_after, Lexeme.taken_cons, Text.byteSize_append, Span.mk.injEq]
        omega
    · rintro ⟨_ | ⟨q, as⟩, gap', y, bs, hxs, rfl⟩
      · obtain ⟨hq, -⟩ := List.cons.inj hxs
        obtain ⟨rfl, -⟩ := Prod.mk.inj hq
        exact .inl (by simp [taken])
      · obtain ⟨rfl, rfl⟩ := List.cons.inj hxs
        refine .inr ⟨as, gap', y, bs, rfl, ?_⟩
        simp only [Place.offset_after, Lexeme.taken_cons, Text.byteSize_append, Span.mk.injEq]
        omega

/-- In a source that is not too long for its offsets, gaps can be told by their
spans. -/
theorem hasGap_iff (hsize : (l ++ gap ++ r).byteSize ≤ largest) :
    Lexeme.HasGap l gap r ↔
      ⟨l.byteSize, (l ++ gap).byteSize⟩ ∈ gaps 0 (ofSource (l ++ gap ++ r)) := by
  have hmem := @mem_gaps_placed_iff .start (Lexeme.sequence (l ++ gap ++ r))
    ⟨l.byteSize, (l ++ gap).byteSize⟩
    (by rwa [Lexeme.taken_sequence, Place.offset_start, Nat.zero_add])
  rw [ofSource_eq_placed, ← Place.offset_start, hmem]
  simp only [Place.offset_start, Nat.zero_add, Span.mk.injEq]
  constructor
  · rintro ⟨as, x, bs, hsequence, rfl⟩
    exact ⟨as, gap, x, bs, hsequence, rfl, rfl⟩
  · rintro ⟨as, gap', x, bs, hsequence, hstart, hstop⟩
    have htext : taken as ++ (gap' ++ (x.text ++ taken bs)) = l ++ (gap ++ r) := by
      rw [← Lexeme.taken_cons, ← Lexeme.taken_append, ← hsequence, Lexeme.taken_sequence,
        List.append_assoc]
    obtain ⟨rfl, hrest⟩ := Text.append_inj_of_byteSize htext hstart.symm
    obtain ⟨rfl, -⟩ := Text.append_inj_of_byteSize hrest (by simpa using hstop.symm)
    exact ⟨as, x, bs, hsequence, rfl⟩

/-- **Another gap leaves the tokens as they are**, but for their places. -/
theorem map_forget_ofSource_replace (hlegal : ∀ t ∈ ofSource (l ++ gap ++ r), t.kind ≠ .illegal)
    (hgap : Lexeme.HasGap l gap r) (hgap' : IsGap gap') (hne : gap' ≠ []) :
    (ofSource (l ++ gap' ++ r)).map Move.forget.token =
      (ofSource (l ++ gap ++ r)).map Move.forget.token := by
  obtain ⟨as, x, bs, hsequence, rfl⟩ := hgap
  obtain ⟨htaken, has⟩ := Lexeme.sequence_eq_iff.mp hsequence
  obtain rfl : r = x.text ++ taken bs := by
    rw [Lexeme.taken_append, Lexeme.taken_cons, List.append_assoc] at htaken
    exact List.append_cancel_left (List.append_cancel_left htaken)
  have hlegal' : ∀ p ∈ as ++ (gap, x) :: bs, p.2.kind ≠ .illegal := by
    rw [ofSource_eq_placed, hsequence] at hlegal
    exact (forall_mem_placed_iff (P := fun k _ => k ≠ .illegal)).mp hlegal
  have hreplaced : Lexeme.sequence (taken as ++ gap' ++ (x.text ++ taken bs)) =
      as ++ (gap', x) :: bs := by
    refine Lexeme.sequence_eq_iff.mpr ⟨?_, has.replace_gap hlegal' hgap' hne⟩
    rw [Lexeme.taken_append, Lexeme.taken_cons, List.append_assoc]
  rw [map_forget_ofSource, map_forget_ofSource, scan, scan, hreplaced, hsequence, List.map_append,
    List.map_append]
  rfl

end Token

/-! ## Reading another layout -/

/-- Sources with the same tokens, but for places, are read alike, but for
places. -/
theorem parse_congr {source source' : Text}
    (h : (Token.ofSource source').map Move.forget.token =
      (Token.ofSource source).map Move.forget.token) (o : Options) :
    Move.forget.program (parse o source').program = Move.forget.program (parse o source).program ∧
      (parse o source').faults.map Fault.cause = (parse o source).faults.map Fault.cause :=
  parseTokens_congr h o

/-- **Layout does not change meaning.**  In a recipe without illegal tokens, the
text in front of a token that no other token covers, empty or not, may be
replaced by any gap that is not empty: the tokens keep their kinds and literals,
the program is the same but for places, and the faults have the same causes. -/
theorem parse_replace_gap {l gap gap' r : Text}
    (hlegal : ∀ t ∈ Token.ofSource (l ++ gap ++ r), t.kind ≠ .illegal)
    (hgap : Lexeme.HasGap l gap r) (hgap' : IsGap gap') (hne : gap' ≠ []) :
    (Token.ofSource (l ++ gap' ++ r)).map Move.forget.token =
        (Token.ofSource (l ++ gap ++ r)).map Move.forget.token ∧
      ∀ o : Options,
        Move.forget.program (parse o (l ++ gap' ++ r)).program =
            Move.forget.program (parse o (l ++ gap ++ r)).program ∧
          (parse o (l ++ gap' ++ r)).faults.map Fault.cause =
            (parse o (l ++ gap ++ r)).faults.map Fault.cause := by
  have htokens := Token.map_forget_ofSource_replace hlegal hgap hgap' hne
  exact ⟨htokens, parse_congr htokens⟩

/-- A carriage return and a joined line in front of a line feed, behind a word
that ends in an escaped space. -/
theorem parse_replace_gap_lineFeed :
    let l : Text := "COPY é \\ \\ ".toList
    let gap : Text := []
    let gap' : Text := "\r\\\r\n".toList
    let r : Text := "\n'\\\n'".toList
    (∀ t ∈ Token.ofSource (l ++ gap ++ r), t.kind ≠ .illegal) ∧
      ⟨l.byteSize, (l ++ gap).byteSize⟩ ∈ Token.gaps 0 (Token.ofSource (l ++ gap ++ r)) ∧
      IsGap gap' ∧ gap' ≠ [] ∧
      (parse .strict (l ++ gap' ++ r)).program.toList.map Statement.written =
        ["COPY é \\ \\ ".toList] ∧
      (parse .strict (l ++ gap' ++ r)).faults.map Fault.cause = [.unexpectedStart .string] ∧
      (Token.ofSource (l ++ gap' ++ r)).map Move.forget.token =
          (Token.ofSource (l ++ gap ++ r)).map Move.forget.token ∧
        ∀ o : Options,
          Move.forget.program (parse o (l ++ gap' ++ r)).program =
              Move.forget.program (parse o (l ++ gap ++ r)).program ∧
            (parse o (l ++ gap' ++ r)).faults.map Fault.cause =
              (parse o (l ++ gap ++ r)).faults.map Fault.cause := by
  intro l gap gap' r
  have hlegal : ∀ t ∈ Token.ofSource (l ++ gap ++ r), t.kind ≠ .illegal := by decide +kernel
  have hgap : ⟨l.byteSize, (l ++ gap).byteSize⟩ ∈
      Token.gaps 0 (Token.ofSource (l ++ gap ++ r)) := by decide +kernel
  have hgap' : IsGap gap' := .spacing (by decide) (.joinReturn .nil)
  have hne : gap' ≠ [] := List.cons_ne_nil _ _
  exact ⟨hlegal, hgap, hgap', hne, by decide +kernel, by decide +kernel,
    parse_replace_gap hlegal ((Token.hasGap_iff (by decide +kernel)).mpr hgap) hgap' hne⟩

end Recipe
