import Mathlib.Data.List.Chain
import Recipe.Proofs.Lexeme.Sequence
import Recipe.Proofs.Text.Slice

/-!
# The tokens of a source tile it

Reading a source loses nothing: the tokens and the gaps between them, put one
behind the other, are the source again.  `Token.Tiles` says what this asks of a
list of tokens in terms of spans and slices alone.  Spans are told in numbers of
32 bits, so they tell the tokens apart in sources of up to so many bytes.

## How the proof goes

`Token.Laid` follows the reader: it says that tokens lie behind a part of the
source that has been read, one gap and one token at a time.  The reader lays its
tokens (`Token.laid_placed`), and every clause of `Token.Tiles` is an induction
over how they lie.
-/

namespace Recipe

namespace Lexeme

/-- Texts of blanks and of backslashes that join a line to the next. -/
inductive IsGap : Text → Prop where
  | nil : IsGap []
  /-- A space, a tab or a carriage return. -/
  | spacing {c : Char} {t : Text} : isSpacing c → IsGap t → IsGap (c :: t)
  | join {t : Text} : IsGap t → IsGap ('\\' :: '\n' :: t)
  | joinReturn {t : Text} : IsGap t → IsGap ('\\' :: '\r' :: '\n' :: t)

theorem isGap_splitGap (t : Text) : IsGap (splitGap t).1 := by
  fun_induction splitGap t with
  | case1 t gap rest hsplit ih => rw [hsplit] at ih; exact .join ih
  | case2 t gap rest hsplit ih => rw [hsplit] at ih; exact .joinReturn ih
  | case3 c t _ _ hc gap rest hsplit ih => rw [hsplit] at ih; exact .spacing hc ih
  | case4 => exact .nil
  | case5 => exact .nil

theorem IsGap.append {gap gap' : Text} (h : IsGap gap) (h' : IsGap gap') : IsGap (gap ++ gap') := by
  induction h with
  | nil => exact h'
  | spacing hc _ ih => exact .spacing hc ih
  | join _ ih => exact .join ih
  | joinReturn _ ih => exact .joinReturn ih

/-- Gaps hold nothing but blanks, backslashes and line feeds. -/
theorem IsGap.notMem {gap : Text} (hgap : IsGap gap) {c : Char} (hspacing : ¬ isSpacing c)
    (hslash : c ≠ '\\') (hfeed : c ≠ '\n') : c ∉ gap := by
  induction hgap with
  | nil => exact List.not_mem_nil
  | spacing hd _ ih =>
    rw [List.mem_cons, not_or]
    refine ⟨?_, ih⟩
    rintro rfl
    exact hspacing hd
  | join _ ih => simp [hslash, hfeed, ih]
  | joinReturn _ ih =>
    have hreturn : c ≠ '\r' := by
      rintro rfl
      exact hspacing rfl
    simp [hslash, hreturn, hfeed, ih]

end Lexeme

namespace Token

open Lexeme (IsGap)

/-- Whether `text` is what the token looks like in a source: a string stands
between two quotes that it does not hold, any other token is its literal. -/
def Spells (t : Token) (text : Text) : Prop :=
  if t.kind = .string then
    ∃ q, (q = '"' ∨ q = '\'') ∧ q ∉ t.literal ∧ text = q :: (t.literal ++ [q])
  else text = t.literal

/-- A token that is no string spells its literal. -/
theorem spells_of_ne_string {t : Token} (h : t.kind ≠ .string) : t.Spells t.literal := by
  rw [Spells, if_neg h]

/-- The spans in front of the tokens, the first one from the byte `n` on. -/
def gaps : Nat → List Token → List Span
  | _, [] => []
  | n, t :: ts => ⟨n, t.span.start⟩ :: gaps t.span.stop ts

/-- The spans of the tokens, each behind the span of the gap in front of it. -/
def tiles : Nat → List Token → List Span
  | _, [] => []
  | n, t :: ts => ⟨n, t.span.start⟩ :: t.span :: tiles t.span.stop ts

/-- The tokens stand in the source one behind the other, and between them there
is nothing but gaps. -/
structure Tiles (source : Text) (ts : List Token) : Prop where
  /-- The closing token stands behind the last character, empty, and no other
  token closes. -/
  closing : ∃ us e, ts = us ++ [e] ∧ e.kind = .textEnd ∧
    e.span = ⟨source.byteSize, source.byteSize⟩ ∧ ∀ t ∈ us, t.kind ≠ .textEnd
  /-- Every other token covers something. -/
  nonempty : ∀ t ∈ ts, t.kind ≠ .textEnd → t.span.start < t.span.stop
  /-- There are no more tokens than characters but for the closing one. -/
  finite : ts.length ≤ source.length + 1
  /-- A token starts behind the one before it. -/
  ordered : ts.IsChain fun t u => t.span.stop ≤ u.span.start
  /-- A span covers what its token spells, between two characters at each
  end. -/
  spelled : ∀ t ∈ ts, ∃ text, source.slice? t.span = some text ∧ t.Spells text
  /-- What lies in front of a token is a gap. -/
  separated : ∀ s ∈ gaps 0 ts, ∃ gap, source.slice? s = some gap ∧ IsGap gap
  /-- Gaps and tokens together are the source. -/
  lossless : ∃ pieces : List Text,
    (tiles 0 ts).map source.slice? = pieces.map some ∧ pieces.flatten = source

/-! ## How tokens lie behind what has been read -/

/-- The tokens lie in the source from behind `done` on. -/
inductive Laid (source : Text) : Text → List Token → Prop where
  /-- Behind the last gap there is the closing token. -/
  | close {done gap : Text} {t : Token} : IsGap gap → done ++ gap = source →
      t.kind = .textEnd → t.literal = [] → t.span = ⟨source.byteSize, source.byteSize⟩ →
      Laid source done [t]
  /-- A gap, a token that covers some text, and further tokens behind it. -/
  | cons {done gap text : Text} {t : Token} {ts : List Token} : IsGap gap → text ≠ [] →
      t.kind ≠ .textEnd → t.Spells text → (∃ rest, done ++ gap ++ text ++ rest = source) →
      t.span = ⟨(done ++ gap).byteSize, (done ++ gap ++ text).byteSize⟩ →
      Laid source (done ++ gap ++ text) ts → Laid source done (t :: ts)

namespace Laid

variable {source done : Text} {ts : List Token}

/-- The first token lies behind what has been read, with a gap in front of
it. -/
theorem head_eq (h : Laid source done ts) :
    ∃ gap text t us, ts = t :: us ∧ IsGap gap ∧ t.Spells text ∧
      (∃ rest, done ++ gap ++ text ++ rest = source) ∧
      t.span = ⟨(done ++ gap).byteSize, (done ++ gap ++ text).byteSize⟩ := by
  cases h with
  | @close done gap t hgap hsource hkind hliteral hspan =>
    refine ⟨gap, [], t, [], rfl, hgap, ?_, ⟨[], by simpa using hsource⟩, ?_⟩
    · exact hliteral ▸ spells_of_ne_string (by simp [hkind])
    · rw [hspan, List.append_nil, hsource]
  | @cons done gap text t us hgap _ _ hspells hsource hspan _ =>
    exact ⟨gap, text, t, us, rfl, hgap, hspells, hsource, hspan⟩

/-- What closes a source stands behind its last character. -/
theorem span_of_textEnd (h : Laid source done ts) :
    ∀ t ∈ ts, t.kind = .textEnd → t.span = ⟨source.byteSize, source.byteSize⟩ := by
  induction h with
  | close _ _ _ _ hspan => simpa using fun _ => hspan
  | cons _ _ hkind _ _ _ _ ih =>
    exact List.forall_mem_cons.mpr ⟨fun h => absurd h hkind, ih⟩

theorem nonempty (h : Laid source done ts) :
    ∀ t ∈ ts, t.kind ≠ .textEnd → t.span.start < t.span.stop := by
  induction h with
  | close _ _ hkind => simp [hkind]
  | @cons done gap text t ts _ htext _ _ _ hspan _ ih =>
    intro u hu hkind
    rcases List.mem_cons.mp hu with rfl | hu
    · obtain ⟨c, text, rfl⟩ := List.exists_cons_of_ne_nil htext
      have hc := c.utf8Size_pos
      simp only [hspan, Text.byteSize_append, Text.byteSize_cons]
      omega
    · exact ih u hu hkind

theorem finite (h : Laid source done ts) : done.length + ts.length ≤ source.length + 1 := by
  induction h with
  | @close done gap t _ hsource =>
    subst hsource
    simp
  | @cons done gap text t ts _ htext _ _ _ _ _ ih =>
    have := List.length_pos_iff.mpr htext
    simp only [List.length_append, List.length_cons] at ih ⊢
    omega

theorem ordered (h : Laid source done ts) :
    ts.IsChain fun t u => t.span.stop ≤ u.span.start := by
  induction h with
  | close => exact List.isChain_singleton _
  | @cons done gap text t ts _ _ _ _ _ hspan hlaid ih =>
    obtain ⟨gap', text', u, us, rfl, _, _, _, huspan⟩ := hlaid.head_eq
    refine List.isChain_cons_cons.mpr ⟨?_, ih⟩
    simp only [hspan, huspan, Text.byteSize_append]
    omega

theorem spelled (h : Laid source done ts) :
    ∀ t ∈ ts, ∃ text, source.slice? t.span = some text ∧ t.Spells text := by
  induction h with
  | @close done gap t _ hsource hkind hliteral hspan =>
    intro u hu
    obtain rfl := List.mem_singleton.mp hu
    refine ⟨[], ?_, hliteral ▸ spells_of_ne_string (by simp [hkind])⟩
    rw [hspan]
    exact Text.slice?_eq_some_iff.mpr ⟨source, [], by simp, rfl, by simp⟩
  | @cons done gap text t ts _ _ _ hspells hsource hspan _ ih =>
    intro u hu
    rcases List.mem_cons.mp hu with rfl | hu
    · obtain ⟨rest, rfl⟩ := hsource
      exact ⟨text, hspan ▸ Text.slice?_append _ _ _, hspells⟩
    · exact ih u hu

/-- The span between what has been read and the first token covers the gap. -/
theorem slice?_gap (gap text : Text) {t : Token}
    (hsource : ∃ rest, done ++ gap ++ text ++ rest = source)
    (hspan : t.span = ⟨(done ++ gap).byteSize, (done ++ gap ++ text).byteSize⟩) :
    source.slice? ⟨done.byteSize, t.span.start⟩ = some gap := by
  obtain ⟨rest, rfl⟩ := hsource
  rw [hspan, List.append_assoc (done ++ gap)]
  exact Text.slice?_append done gap (text ++ rest)

theorem separated (h : Laid source done ts) :
    ∀ s ∈ gaps done.byteSize ts, ∃ gap, source.slice? s = some gap ∧ IsGap gap := by
  induction h with
  | @close done gap t hgap hsource _ _ hspan =>
    intro s hs
    obtain rfl := List.mem_singleton.mp hs
    exact ⟨gap, slice?_gap gap [] ⟨[], by simpa using hsource⟩ (by simp [hspan, hsource]),
      hgap⟩
  | @cons done gap text t ts hgap _ _ _ hsource hspan _ ih =>
    intro s hs
    rcases List.mem_cons.mp hs with rfl | hs
    · exact ⟨gap, slice?_gap gap text hsource hspan, hgap⟩
    · exact ih s (by simpa only [hspan] using hs)

theorem lossless (h : Laid source done ts) :
    ∃ pieces : List Text,
      (tiles done.byteSize ts).map source.slice? = pieces.map some ∧
        done ++ pieces.flatten = source := by
  have hspelled := h.spelled
  induction h with
  | @close done gap t _ hsource _ hliteral hspan =>
    refine ⟨[gap, []], ?_, by simpa using hsource⟩
    have hgap := slice?_gap (t := t) gap [] ⟨[], by simpa using hsource⟩
      (by simp [hspan, hsource])
    have htext : source.slice? t.span = some [] := by
      rw [hspan]
      exact Text.slice?_eq_some_iff.mpr ⟨source, [], by simp, rfl, by simp⟩
    simp [tiles, hgap, htext]
  | @cons done gap text t ts _ _ _ _ hsource hspan _ ih =>
    obtain ⟨pieces, hpieces, hflatten⟩ := ih fun u hu => hspelled u (List.mem_cons_of_mem t hu)
    refine ⟨gap :: text :: pieces, ?_, by simpa using hflatten⟩
    have htext : source.slice? t.span = some text := by
      obtain ⟨rest, rfl⟩ := hsource
      exact hspan ▸ Text.slice?_append _ _ _
    have hstop : t.span.stop = (done ++ gap ++ text).byteSize := by rw [hspan]
    simp only [tiles, List.map_cons, slice?_gap gap text hsource hspan, htext, hstop, hpieces]

end Laid

/-! ## The reader lays its tokens -/

theorem spells_verbatim {k : Kind} (h : k ≠ .string) (text : Text) (p : Place) :
    ((Lexeme.verbatim k text).toToken p).Spells text :=
  spells_of_ne_string (t := (Lexeme.verbatim k text).toToken p) h

theorem spells_quoted {q : Char} (hq : q = '"' ∨ q = '\'') (t : Text) (p : Place) :
    ((Lexeme.quoted q t).1.toToken p).Spells (Lexeme.quoted q t).1.text := by
  unfold Lexeme.quoted
  split
  · rename_i body rest h
    exact ⟨q, hq, (Text.cut?_eq_some_iff.mp h).2, rfl⟩
  · exact spells_verbatim (by simp) _ p

/-- A lexeme takes of its source what its token spells. -/
theorem spells_split (t : Text) (p : Place) :
    ((Lexeme.split t).1.toToken p).Spells (Lexeme.split t).1.text := by
  fun_cases Lexeme.split t with
  | case7 t => exact spells_quoted (.inl rfl) t p
  | case8 t => exact spells_quoted (.inr rfl) t p
  | case10 c t _ _ _ _ _ _ _ word rest _ _ =>
    exact spells_verbatim (Kind.ofWord_ne_string word) word p
  | _ => exact spells_verbatim (by simp) _ p

/-- The span of a lexeme that lies in a source which is not too long for its
offsets. -/
theorem span_toToken_after {source l rest : Text} {x : Lexeme}
    (hsource : l ++ x.text ++ rest = source) (hsize : source.byteSize ≤ largest) :
    (x.toToken (Place.start.after l)).span = ⟨l.byteSize, (l ++ x.text).byteSize⟩ := by
  subst hsource
  simp only [Text.byteSize_append] at hsize
  simp only [Lexeme.toToken, Place.offset_after, Place.offset_start, Nat.zero_add,
    Text.byteSize_append]
  exact Span.ofBytes_of_le (by omega) (by omega)

/-- The lexemes of what is left of a source lie behind what has been read. -/
theorem laid_placed (done rest : Text) (hsize : (done ++ rest).byteSize ≤ largest) :
    Laid (done ++ rest) done (placed (Place.start.after done) (Lexeme.sequence rest)) := by
  induction rest using Lexeme.sequence.induct generalizing done with
  | case1 rest h =>
    have hrest : (Lexeme.splitGap rest).1 = rest := by
      simpa [h] using Lexeme.append_splitGap rest
    rw [Lexeme.sequence_of_splitGap_eq_nil h]
    refine .close (Lexeme.isGap_splitGap rest) (by rw [hrest]) rfl rfl ?_
    have hsource : done ++ rest ++ (Lexeme.verbatim .textEnd []).text ++ [] = done ++ rest := by
      simp [Lexeme.verbatim]
    rw [hrest, ← Place.after_append, span_toToken_after hsource hsize, Lexeme.verbatim,
      List.append_nil]
  | case2 rest h _ _ ih =>
    rw [Lexeme.sequence_of_splitGap_ne_nil h]
    generalize hgap : (Lexeme.splitGap rest).1 = gap
    generalize hbehind : (Lexeme.splitGap rest).2 = behind at h ih ⊢
    have hrest : gap ++ behind = rest := by
      rw [← hgap, ← hbehind]
      exact Lexeme.append_splitGap rest
    have hbehind' := Lexeme.text_append_split behind
    have hsource : done ++ gap ++ (Lexeme.split behind).1.text ++ (Lexeme.split behind).2 =
        done ++ rest := by
      simp only [List.append_assoc, hbehind', hrest]
    have hlaid := ih (done ++ gap ++ (Lexeme.split behind).1.text)
    rw [hsource, Place.after_append, Place.after_append] at hlaid
    refine .cons (hgap ▸ Lexeme.isGap_splitGap rest) (Lexeme.text_split_ne_nil h)
      (mt Lexeme.kind_split_eq_textEnd_iff.mp h) (spells_split behind _) ⟨_, hsource⟩ ?_
      (hlaid hsize)
    rw [← Place.after_append]
    exact span_toToken_after hsource hsize

/-- The tokens of a source lie in it from its first character on. -/
theorem laid_ofSource {source : Text} (hsize : source.byteSize ≤ largest) :
    Laid source [] (ofSource source) := by
  rw [ofSource_eq_placed]
  exact laid_placed [] source hsize

/-- **Reading is lossless**: the tokens of a source that is not too long for its
offsets tile it. -/
theorem tiles_ofSource {source : Text} (hsize : source.byteSize ≤ largest) :
    Tiles source (ofSource source) := by
  have hlaid := laid_ofSource hsize
  obtain ⟨us, e, hsource, he, hus⟩ := exists_ofSource_eq_append source
  have hspan := hlaid.span_of_textEnd e (by simp [hsource]) he
  exact {
    closing := ⟨us, e, hsource, he, hspan, hus⟩
    nonempty := hlaid.nonempty
    finite := by simpa using hlaid.finite
    ordered := hlaid.ordered
    spelled := hlaid.spelled
    separated := hlaid.separated
    lossless := hlaid.lossless }

/-- A string over two lines, behind a line that is joined, and a mark behind
another. -/
theorem tiles_ofSource_string :
    let source : Text := "RUN \\\n\t\"é\n\" x\\ y\r\\\r\n# ".toList
    source.byteSize ≤ largest ∧
      (ofSource source).map span = [⟨0, 3⟩, ⟨7, 12⟩, ⟨13, 17⟩, ⟨21, 22⟩, ⟨23, 23⟩] ∧
      Tiles source (ofSource source) := by
  intro source
  have hsize : source.byteSize ≤ largest := by decide +kernel
  exact ⟨hsize, by decide +kernel, tiles_ofSource hsize⟩

end Token

end Recipe
