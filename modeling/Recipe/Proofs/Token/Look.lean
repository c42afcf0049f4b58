import Recipe.Proofs.Token.Excerpt

/-!
# What tokens look like

Of which kind a token is follows from the text it covers and from what stands
behind that.  `Lexeme.HasLook` says kind by kind, and without a reader, what
such a text looks like; the kind of a token is the one whose look its text has,
and no other (`Token.kind_eq_iff_hasLook`).

Words are as long as they can be.  A backslash is read in four ways: it belongs
to a word with the space behind it, to a gap with the line feed behind it or
with the carriage return and the line feed behind it, and it is an illegal
lexeme in front of anything else.
-/

namespace Recipe

namespace Lexeme

/-- Whether the text is a word and nothing that words are made of stands behind
it. -/
structure IsLongestWord (text rest : Text) : Prop where
  isWord : IsWord text
  maximal : ∀ u, IsUnits u → u <+: rest → u = []

/-- What no other lexeme takes: the character that invalid bytes are read as, a
backslash in front of nothing that it goes with, and a quote that is not closed,
with all that stands behind it. -/
inductive IsStray : Text → Text → Prop where
  | replacement (rest : Text) : IsStray [Text.replacement] rest
  | backslash {rest : Text} : ¬ [' '] <+: rest → ¬ ['\n'] <+: rest → ¬ ['\r', '\n'] <+: rest →
      IsStray ['\\'] rest
  | unclosed {q : Char} {body : Text} : q = '"' ∨ q = '\'' → q ∉ body → IsStray (q :: body) []

/-- Whether the text goes from a quote to the very next one of its sort. -/
def IsQuoted (text : Text) : Prop :=
  ∃ q body, (q = '"' ∨ q = '\'') ∧ q ∉ body ∧ text = q :: (body ++ [q])

/-- What a lexeme of each kind looks like, in front of `rest`. -/
def HasLook (text rest : Text) : Kind → Prop
  | .textEnd => text = [] ∧ rest = []
  | .lineFeed => text = ['\n']
  | .illegal => IsStray text rest
  | .word => IsLongestWord text rest ∧ ∀ k : Keyword, text ≠ k.text
  | .string => IsQuoted text
  | .hash => text = ['#']
  | .leftBracket => text = ['[']
  | .rightBracket => text = [']']
  | .comma => text = [',']
  | .keyword k => text = k.text

variable {x y : Lexeme} {r : Text} {k : Kind}

/-! ## From the kind to the look -/

/-- A character that stands alone, with no gap in front of it, is a backslash or
stands for invalid bytes. -/
theorem isStray_of_stops {c : Char} (hfeed : c ≠ '\n') (hstops : Stops (c :: r))
    (hflush : Flush (c :: r)) : IsStray [c] r := by
  have hspacing : ¬ isSpacing c := by
    intro hc
    cases hflush [c] (.spacing hc .nil) (List.prefix_append [c] r)
  have hplain : ¬ isPlain c := by
    intro hc
    cases stops_iff.mp hstops [c] (.plain hc .nil) (List.prefix_append [c] r)
  have hc : c = '\\' ∨ c = Text.replacement := by
    simpa [isPlain, hspacing, hfeed, or_iff_not_imp_left] using hplain
  rcases hc with rfl | rfl
  · refine .backslash ?_ ?_ ?_
    · rintro ⟨t, rfl⟩
      cases hstops
    · rintro ⟨t, rfl⟩
      cases hflush _ (.join .nil) (List.prefix_append ['\\', '\n'] t)
    · rintro ⟨t, rfl⟩
      cases hflush _ (.joinReturn .nil) (List.prefix_append ['\\', '\r', '\n'] t)
  · exact .replacement r

theorem hasLook_ofWord {w : Text} (hw : IsWord w) (hr : Stops r) :
    HasLook w r (.ofWord w) := by
  unfold Kind.ofWord
  cases hkeyword : Keyword.ofText? w with
  | none =>
    refine ⟨⟨hw, stops_iff.mp hr⟩, ?_⟩
    rintro k rfl
    rw [Keyword.ofText?_text] at hkeyword
    cases hkeyword
  | some k => exact (Keyword.ofText?_eq_some_iff.mp hkeyword).symm

/-- A lexeme looks as its kind asks. -/
theorem Heads.hasLook (h : Heads x r) (hflush : Flush (x.text ++ r)) :
    HasLook x.text r x.kind := by
  cases h with
  | textEnd => exact ⟨rfl, rfl⟩
  | lineFeed | hash | leftBracket | rightBracket | comma => exact rfl
  | string _ hq hbody => exact ⟨_, _, hq, hbody, rfl⟩
  | unclosed hq hbody => exact .unclosed hq hbody
  | word hw hr => exact hasLook_ofWord hw hr
  | stray hfeed _ hstops => exact isStray_of_stops hfeed hstops hflush

/-! ## From the look to the kind -/

/-- One lexeme has the text, whatever stands behind it. -/
theorem Heads.eq_of_text_eq (hx : Heads x r) (hy : Heads y r) (htext : x.text = y.text) :
    x = y := by
  have hsplit : split (x.text ++ r) = split (y.text ++ r) := by rw [htext]
  rw [hx.split_eq, hy.split_eq] at hsplit
  exact (Prod.mk.inj hsplit).1

/-- A text that may be a word is one. -/
theorem Heads.kind_of_isWord (h : Heads x r) (hw : IsWord x.text) :
    x.kind = .ofWord x.text ∧ Stops r := by
  cases h with
  | textEnd => exact absurd rfl hw.ne_nil
  | lineFeed => exact absurd rfl hw.cons_inv.1
  | hash | leftBracket | rightBracket | comma => exact absurd (by decide) hw.cons_inv.2.2
  | string _ hq _ | unclosed hq _ =>
    refine absurd ?_ hw.cons_inv.2.2
    rcases hq with rfl | rfl <;> decide
  | word _ hr => exact ⟨rfl, hr⟩
  | @stray c _ _ _ hstops =>
    cases stops_iff.mp hstops [c] hw.units (List.prefix_append [c] r)

/-- What is stray heads any text that goes on as it does. -/
theorem IsStray.heads {text : Text} (h : IsStray text r) : Heads (verbatim .illegal text) r := by
  cases h with
  | replacement => exact .stray (by decide) (by decide) (stops_cons rfl (by decide) r)
  | backslash hspace _ _ =>
    refine .stray (by decide) (by decide) (stops_iff.mpr ?_)
    rintro w hw ⟨t, ht⟩
    cases hw with
    | nil => rfl
    | plain hc _ =>
      rw [(List.cons.inj ht).1] at hc
      cases hc
    | escaped _ => exact absurd ⟨_, (List.cons.inj ht).2⟩ hspace
  | unclosed hq hbody => exact .unclosed hq hbody

/-- A lexeme is of the kind that it looks like. -/
theorem Heads.kind_of_hasLook (h : Heads x r) (hlook : HasLook x.text r k) : x.kind = k := by
  cases k with
  | textEnd =>
    obtain ⟨htext, rfl⟩ := hlook
    exact congrArg kind (h.eq_of_text_eq .textEnd htext)
  | lineFeed => exact congrArg kind (h.eq_of_text_eq (.lineFeed r) hlook)
  | hash => exact congrArg kind (h.eq_of_text_eq (.hash r) hlook)
  | leftBracket => exact congrArg kind (h.eq_of_text_eq (.leftBracket r) hlook)
  | rightBracket => exact congrArg kind (h.eq_of_text_eq (.rightBracket r) hlook)
  | comma => exact congrArg kind (h.eq_of_text_eq (.comma r) hlook)
  | illegal => exact congrArg kind (h.eq_of_text_eq hlook.heads rfl)
  | string =>
    obtain ⟨q, body, hq, hbody, htext⟩ := hlook
    exact congrArg kind (h.eq_of_text_eq (.string r hq hbody) htext)
  | word =>
    obtain ⟨⟨hw, -⟩, hkeyword⟩ := hlook
    rw [(h.kind_of_isWord hw).1, Kind.ofWord]
    cases htext : Keyword.ofText? x.text with
    | none => rfl
    | some k => exact absurd (Keyword.ofText?_eq_some_iff.mp htext).symm (hkeyword k)
  | keyword k =>
    have htext : x.text = k.text := hlook
    have hw : IsWord x.text := htext ▸ isWord_text k
    rw [(h.kind_of_isWord hw).1, htext, Kind.ofWord, Keyword.ofText?_text]

/-- **The look decides on the kind.** -/
theorem Heads.kind_eq_iff (h : Heads x r) (hflush : Flush (x.text ++ r)) :
    x.kind = k ↔ HasLook x.text r k := by
  constructor
  · rintro rfl
    exact h.hasLook hflush
  · exact h.kind_of_hasLook

/-- Bare words are the longest words. -/
theorem Heads.isBare_iff (h : Heads x r) : x.kind.isBare ↔ IsLongestWord x.text r := by
  constructor
  · intro hx
    obtain ⟨hw, -, hr⟩ := h.of_isBare hx
    exact ⟨hw, stops_iff.mp hr⟩
  · rintro ⟨hw, -⟩
    rw [(h.kind_of_isWord hw).1]
    exact Kind.isBare_ofWord x.text

end Lexeme

namespace Token

/-- **Exact classes, longest words.**  A token is spelled by a piece of its
source, and of what kind it is can be told from this piece and from the rest of
the source behind it: of that kind whose look the piece has there, and of no
other.  Bare words, keywords among them, are the longest words.  Its span covers
the piece, in numbers of 32 bits; in a source that is not too long for its
offsets, the piece and the rest can be cut out with it. -/
theorem kind_eq_iff_hasLook {source : Text} {t : Token} (ht : t ∈ ofSource source) :
    ∃ before text rest, source = before ++ text ++ rest ∧
      t.span = .ofBytes before.byteSize (before ++ text).byteSize ∧ t.Spells text ∧
      (∀ k, t.kind = k ↔ Lexeme.HasLook text rest k) ∧
      (t.kind.isBare ↔ Lexeme.IsLongestWord text rest) ∧
      (source.byteSize ≤ largest → source.slice? t.span = some text ∧
        source.slice? ⟨t.span.stop, source.byteSize⟩ = some rest) := by
  obtain ⟨as, gap, x, bs, hsequence, rfl⟩ := mem_ofSource_iff.mp ht
  obtain ⟨rfl, hheads, hflush⟩ := Lexeme.of_sequence_eq_append hsequence
  have hspells := spells_split (x.text ++ Lexeme.taken bs)
    (Place.start.after (Lexeme.taken as ++ gap))
  rw [hheads.split_eq] at hspells
  refine ⟨Lexeme.taken as ++ gap, x.text, Lexeme.taken bs, rfl, ?_, hspells,
    fun k => hheads.kind_eq_iff hflush, hheads.isBare_iff, fun hsize => ⟨?_, ?_⟩⟩
  · rw [Lexeme.toToken, Place.offset_after, Text.byteSize_append _ x.text, Place.offset_start,
      Nat.zero_add]
  · rw [span_toToken_after rfl hsize]
    exact Text.slice?_append _ _ _
  · rw [span_toToken_after rfl hsize]
    have hslice := Text.slice?_append (Lexeme.taken as ++ gap ++ x.text) (Lexeme.taken bs) []
    rwa [List.append_nil] at hslice

/-- A backslash in front of another one that joins the line to the next, behind
a word that holds an escaped space and a mark. -/
theorem kind_eq_iff_hasLook_backslash :
    let source : Text := "RUN a\\ #\\\\\n'é".toList
    let t : Token := ⟨.illegal, ['\\'], ⟨1, 9⟩, ⟨8, 9⟩⟩
    t ∈ ofSource source ∧
      ∃ before text rest, source = before ++ text ++ rest ∧
        t.span = .ofBytes before.byteSize (before ++ text).byteSize ∧ t.Spells text ∧
        (∀ k, t.kind = k ↔ Lexeme.HasLook text rest k) ∧
        (t.kind.isBare ↔ Lexeme.IsLongestWord text rest) ∧
        (source.byteSize ≤ largest → source.slice? t.span = some text ∧
          source.slice? ⟨t.span.stop, source.byteSize⟩ = some rest) := by
  intro source t
  have ht : t ∈ ofSource source := by decide +kernel
  exact ⟨ht, kind_eq_iff_hasLook ht⟩

end Token

end Recipe
