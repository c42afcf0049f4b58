import Recipe.Proofs.Line.Kept
import Recipe.Proofs.Token.Excerpt
import Recipe.Proofs.Written.Normal
import Recipe.Text.Utf8

/-!
# Bytes that could not be decoded

A character that stands for invalid bytes belongs to no gap and to no word, so
it lies in an illegal token, or between the quotes of a string.  In the first
case its line has a fault; in the second one nothing is wrong with the string.
`surfaces_iff` says both.

## How the proof goes

Gaps and lexemes make up the source, so every character of it lies in a gap or
in a lexeme (`Lexeme.exists_of_taken_eq_append`), and which lexemes hold such a
character is a case for each of them (`Lexeme.Heads.cases_of_replacement_mem`).
It lies in one token only, since tokens do not overlap (`Token.eq_of_covers`).
-/

namespace Recipe

open Lexeme (taken)
open Token (ofSource)

/-- A character that no gap holds lies in a lexeme. -/
theorem Lexeme.exists_of_taken_eq_append {xs : List (Text × Lexeme)} {l r : Text} {c : Char}
    (hgaps : ∀ p ∈ xs, c ∉ p.1) (h : taken xs = l ++ c :: r) :
    ∃ as gap x bs u v, xs = as ++ (gap, x) :: bs ∧ x.text = u ++ c :: v ∧
      l = taken as ++ gap ++ u := by
  induction xs generalizing l with
  | nil => cases l <;> cases h
  | cons p xs ih =>
    obtain ⟨gap, x⟩ := p
    obtain ⟨hgap, hgaps⟩ := List.forall_mem_cons.mp hgaps
    rw [taken_cons] at h
    rcases Text.cases_of_append_eq h with ⟨v, rfl, -⟩ | ⟨u, rfl, hbehind⟩
    · exact absurd (List.mem_append_right l List.mem_cons_self) hgap
    rcases Text.cases_of_append_eq hbehind with ⟨v, htext, -⟩ | ⟨u, rfl, htail⟩
    · exact ⟨[], gap, x, xs, u, v, rfl, htext, rfl⟩
    · obtain ⟨as, gap', y, bs, u', v, rfl, htext, rfl⟩ := ih hgaps htail
      exact ⟨(gap, x) :: as, gap', y, bs, u', v, rfl, htext, by simp [taken_cons]⟩

/-- Whether the span covers the character `c` behind the text `l`. -/
def Span.Covers (s : Span) (l : Text) (c : Char) : Prop :=
  s.start ≤ l.byteSize ∧ (l ++ [c]).byteSize ≤ s.stop

namespace Token

variable {source l r : Text} {t u : Token} {c : Char}

/-- The span of a lexeme covers the characters of its text. -/
theorem covers_toToken {front gap rest : Text} {x : Lexeme} {u v : Text}
    (hsource : front ++ gap ++ x.text ++ rest = source) (hsize : source.byteSize ≤ largest)
    (htext : x.text = u ++ c :: v) :
    (x.toToken (Place.start.after (front ++ gap))).span.Covers (front ++ gap ++ u) c := by
  rw [span_toToken_after hsource hsize, htext, Span.Covers]
  simp only [Text.byteSize_append, Text.byteSize_cons, Text.byteSize_nil]
  omega

/-- A character lies in one token only. -/
theorem eq_of_covers (ht : t ∈ ofSource source) (hu : u ∈ ofSource source)
    (htl : t.span.Covers l c) (hul : u.span.Covers l c) : t = u := by
  by_contra hne
  have hsymm : Std.Symm fun t u : Token =>
      t.span.stop ≤ u.span.start ∨ u.span.stop ≤ t.span.start := ⟨fun _ _ => Or.symm⟩
  have hpairwise : (ofSource source).Pairwise fun t u : Token =>
      t.span.stop ≤ u.span.start ∨ u.span.stop ≤ t.span.start := by
    rw [ofSource_eq_placed]
    exact (pairwise_placed _ _).imp .inl
  have hapart := hpairwise.forall ht hu hne
  have hc := c.utf8Size_pos
  simp only [Span.Covers, Text.byteSize_append, Text.byteSize_cons] at htl hul
  omega

/-- A character that stands for invalid bytes lies in an illegal token or in a
string, which then holds it. -/
theorem exists_covers (hsize : source.byteSize ≤ largest)
    (hsource : source = l ++ Text.replacement :: r) :
    ∃ t ∈ ofSource source, t.span.Covers l Text.replacement ∧
      (t.kind = .illegal ∨ t.kind = .string ∧ Text.replacement ∈ t.literal) := by
  have hgaps : ∀ p ∈ Lexeme.sequence source, Text.replacement ∉ p.1 := fun p hp =>
    ((Lexeme.isSequence_sequence source).isGap p hp).notMem (by decide) (by decide) (by decide)
  have htaken := Lexeme.taken_sequence source
  obtain ⟨as, gap, x, bs, u, v, hsequence, htext, rfl⟩ :=
    Lexeme.exists_of_taken_eq_append hgaps (htaken.trans hsource)
  have hx : Text.replacement ∈ x.text := htext ▸ List.mem_append_right u List.mem_cons_self
  obtain ⟨htaken, hheads, -⟩ := Lexeme.of_sequence_eq_append hsequence
  exact ⟨_, mem_ofSource_iff.mpr ⟨as, gap, x, bs, hsequence, rfl⟩,
    covers_toToken htaken.symm hsize htext, hheads.cases_of_replacement_mem hx⟩

/-- What the literal of a token holds stands in the source, and the token covers
it. -/
theorem exists_eq_append_of_mem_literal (hsize : source.byteSize ≤ largest)
    (ht : t ∈ ofSource source) (hc : c ∈ t.literal) :
    ∃ l r, source = l ++ c :: r ∧ t.span.Covers l c := by
  obtain ⟨as, gap, x, bs, hsequence, rfl⟩ := mem_ofSource_iff.mp ht
  obtain ⟨rfl, hheads, -⟩ := Lexeme.of_sequence_eq_append hsequence
  obtain ⟨u, v, htext⟩ := List.append_of_mem (hheads.mem_text hc)
  refine ⟨taken as ++ gap ++ u, v ++ taken bs, ?_, covers_toToken rfl hsize htext⟩
  rw [htext]
  simp

end Token

/-- Whether the bytes behind the text `l`, which could not be decoded, come to
light: whether an illegal token covers the character that stands for them. -/
def Surfaces (source l : Text) : Prop :=
  ∃ t ∈ ofSource source, t.kind = .illegal ∧ t.span.Covers l Text.replacement

namespace Token

variable {source l r : Text}

/-- Invalid bytes come to light exactly if no string covers them. -/
theorem surfaces_iff_forall (hsize : source.byteSize ≤ largest)
    (hsource : source = l ++ Text.replacement :: r) :
    Surfaces source l ↔
      ∀ t ∈ ofSource source, t.kind = .string → ¬ t.span.Covers l Text.replacement := by
  constructor
  · rintro ⟨t, ht, hkind, htl⟩ u hu hstring hul
    rw [eq_of_covers ht hu htl hul, hstring] at hkind
    cases hkind
  · intro hnone
    obtain ⟨t, ht, htl, hkind | ⟨hstring, -⟩⟩ := exists_covers hsize hsource
    · exact ⟨t, ht, hkind, htl⟩
    · exact absurd htl (hnone t ht hstring)

end Token

/-! ## Recipes without faults -/

/-- Where nothing is reported, no token is illegal. -/
theorem Token.kind_ne_illegal {source : Text} {t : Token}
    (hfaults : (parse .strict source).faults = []) (ht : t ∈ ofSource source) :
    t.kind ≠ .illegal := by
  intro hkind
  have hline : ¬ t.kind.isLineEnd := by simp [hkind, Kind.isLineEnd]
  obtain ⟨s, -, ts, hforms, hts⟩ := exists_forms_of_mem_ofSource hfaults ht hline
  obtain ⟨h, ts, rfl⟩ := List.exists_cons_of_ne_nil (List.ne_nil_of_mem hts)
  exact (hforms.isPiece t hts).1 hkind

/-- Strings are words of lines without a grammar. -/
theorem Forms.exists_other_of_string {h t : Token} {ts : List Token} {s : Statement}
    (hforms : Forms (h :: ts) s) (ht : t ∈ h :: ts) (hstring : t.kind = .string) :
    ∃ k words span, s = .other k words span ∧ t.word ∈ words := by
  have hother : s.isOther := by
    by_contra hother
    obtain ⟨hhead, -, hbare⟩ := hforms.isBare hother
    rcases List.mem_cons.mp ht with rfl | ht
    · exact hhead hstring
    · exact Token.ne_string_of_isBare (hbare t ht) hstring
  cases hforms with
  | other hh _ _ =>
    rcases List.mem_cons.mp ht with rfl | ht
    · rw [hh] at hstring
      cases hstring
    · exact ⟨_, _, _, rfl, List.mem_map_of_mem ht⟩
  | _ => cases hother

/-- Where nothing is reported, invalid bytes lie in a string that is a word of a
line without a grammar. -/
theorem exists_word_covers {source l r : Text} (hsize : source.byteSize ≤ largest)
    (hfaults : (parse .strict source).faults = [])
    (hsource : source = l ++ Text.replacement :: r) :
    ∃ k words span, .other k words span ∈ (parse .strict source).program.toList ∧
      ∃ w ∈ words, w.kind = .string ∧ Text.replacement ∈ w.literal ∧
        w.span.Covers l Text.replacement := by
  obtain ⟨t, ht, htl, hkind | ⟨hstring, hliteral⟩⟩ := Token.exists_covers hsize hsource
  · exact absurd hkind (Token.kind_ne_illegal hfaults ht)
  have hline : ¬ t.kind.isLineEnd := by simp [hstring, Kind.isLineEnd]
  obtain ⟨s, hs, ts, hforms, hts⟩ := exists_forms_of_mem_ofSource hfaults ht hline
  obtain ⟨h, ts, rfl⟩ := List.exists_cons_of_ne_nil (List.ne_nil_of_mem hts)
  obtain ⟨k, words, span, rfl, hword⟩ := hforms.exists_other_of_string hts hstring
  exact ⟨k, words, span, hs, t.word, hword, hstring, hliteral, htl⟩

/-- **Where invalid bytes come to light**, in a source that is not too long for
its offsets: where no string covers them.  So all of them do, and the recipe has
a fault if there are any, if and only if no string holds a character that stands
for them; and in a recipe without faults each of them lies in a string that is a
word of a line without a grammar. -/
theorem surfaces_iff {source : Text} (hsize : source.byteSize ≤ largest) :
    (∀ l r, source = l ++ Text.replacement :: r →
        (Surfaces source l ↔
          ∀ t ∈ ofSource source, t.kind = .string → ¬ t.span.Covers l Text.replacement)) ∧
      (((∀ l r, source = l ++ Text.replacement :: r → Surfaces source l) ∧
          (Text.replacement ∈ source → (parse .strict source).faults ≠ [])) ↔
        ∀ t ∈ ofSource source, t.kind = .string → Text.replacement ∉ t.literal) ∧
      ((parse .strict source).faults = [] → ∀ l r, source = l ++ Text.replacement :: r →
        ∃ k words span, .other k words span ∈ (parse .strict source).program.toList ∧
          ∃ w ∈ words, w.kind = .string ∧ Text.replacement ∈ w.literal ∧
            w.span.Covers l Text.replacement) := by
  refine ⟨fun l r => Token.surfaces_iff_forall hsize, ⟨?_, ?_⟩, ?_⟩
  · rintro ⟨hsurfaces, -⟩ t ht hstring hliteral
    obtain ⟨l, r, hsource, htl⟩ := Token.exists_eq_append_of_mem_literal hsize ht hliteral
    exact (Token.surfaces_iff_forall hsize hsource).mp (hsurfaces l r hsource) t ht hstring htl
  · intro hnone
    have hsurfaces (l r : Text) (hsource : source = l ++ Text.replacement :: r) :
        Surfaces source l := by
      obtain ⟨t, ht, htl, hkind | ⟨hstring, hliteral⟩⟩ := Token.exists_covers hsize hsource
      · exact ⟨t, ht, hkind, htl⟩
      · exact absurd hliteral (hnone t ht hstring)
    refine ⟨hsurfaces, fun hmem hfaults => ?_⟩
    obtain ⟨l, r, hsource⟩ := List.append_of_mem hmem
    obtain ⟨t, ht, hkind, -⟩ := hsurfaces l r hsource
    exact Token.kind_ne_illegal hfaults ht hkind
  · exact fun hfaults l r => exists_word_covers hsize hfaults

/-- An invalid byte in front of a word comes to light, and one in a string
behind it does not. -/
theorem surfaces_iff_string :
    let source := Text.ofBytes [0x52, 0x55, 0x4e, 0x20, 0xff, 0x61, 0x20, 0x22, 0xff, 0x22]
    let front : Text := "RUN ".toList
    let inside : Text := front ++ Text.replacement :: "a \"".toList
    source.byteSize ≤ largest ∧ source = inside ++ Text.replacement :: ['"'] ∧
      (parse .strict source).faults =
        [⟨.illegalToken [Text.replacement], ⟨4, 7⟩, ⟨1, 5⟩⟩] ∧
      Surfaces source front ∧ ¬ Surfaces source inside := by
  intro source front inside
  have hsize : source.byteSize ≤ largest := by decide +kernel
  have hfront : source = front ++ Text.replacement :: "a \"\uFFFD\"".toList := by decide +kernel
  have hinside : source = inside ++ Text.replacement :: ['"'] := by decide +kernel
  have hcovers := (surfaces_iff hsize).1
  refine ⟨hsize, hinside, by decide +kernel, ?_, fun hsurfaces => ?_⟩
  · rw [hcovers _ _ hfront]
    unfold Span.Covers
    decide +kernel
  · have hnone := (hcovers _ _ hinside).mp hsurfaces
    unfold Span.Covers at hnone
    revert hnone
    decide +kernel

/-- The byte `0xff` between two quotes is read as a character of the string, and
nothing comes to light. -/
theorem undecoded_in_string :
    let source := Text.ofBytes [0x52, 0x55, 0x4e, 0x20, 0x22, 0xff, 0x22]
    source = "RUN \"".toList ++ Text.replacement :: ['"'] ∧
      ¬ Surfaces source "RUN \"".toList ∧ (parse .strict source).faults = [] := by
  refine ⟨by decide +kernel, ?_, by decide +kernel⟩
  rintro ⟨t, ht, hkind, -⟩
  revert ht hkind
  exact (by decide +kernel : ∀ t ∈ ofSource _, t.kind ≠ .illegal) t

end Recipe
