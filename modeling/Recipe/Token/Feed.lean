import Recipe.Token.Basic

/-!
# Token feeds

A list of tokens with an end that can be read again and again: the closing
token, placed behind the last token of the list.
-/

namespace Recipe

structure Feed where
  tokens : List Token
  /-- The token the end of the feed stands behind. -/
  last : Token
deriving DecidableEq, Repr

namespace Feed

def ofList (ts : List Token) : Feed := ⟨ts, ts.getLastD (Token.bare .textEnd [])⟩

/-- The token to be read next. -/
def head (f : Feed) : Token := f.tokens.headD f.last.ending

def tail (f : Feed) : Feed := { f with tokens := f.tokens.tail }

/-- The tokens in front of the next end of line. -/
def line (f : Feed) : List Token := f.tokens.takeWhile fun t => !t.kind.isLineEnd

/-- The feed from the next end of line on. -/
def skipLine (f : Feed) : Feed :=
  { f with tokens := f.tokens.dropWhile fun t => !t.kind.isLineEnd }

@[simp] theorem head_mk_nil (t : Token) : head ⟨[], t⟩ = t.ending := rfl

@[simp] theorem head_mk_cons (t u : Token) (ts : List Token) : head ⟨t :: ts, u⟩ = t := rfl

@[simp] theorem tail_mk (ts : List Token) (t : Token) : tail ⟨ts, t⟩ = ⟨ts.tail, t⟩ := rfl

/-- Only the end of a feed is left when no token is. -/
theorem tokens_ne_nil {f : Feed} (h : f.head.kind ≠ .textEnd) : f.tokens ≠ [] := by
  rintro hnil
  simp [head, hnil] at h

theorem length_tail_lt {f : Feed} (h : f.head.kind ≠ .textEnd) :
    f.tail.tokens.length < f.tokens.length := by
  have := List.length_pos_iff.2 (tokens_ne_nil h)
  simp only [tail, List.length_tail]
  omega

theorem length_skipLine_le (f : Feed) : f.skipLine.tokens.length ≤ f.tokens.length :=
  (List.dropWhile_sublist _).length_le

/-- A feed at the end of its line stays there. -/
theorem skipLine_of_isLineEnd {f : Feed} (h : f.head.kind.isLineEnd) : f.skipLine = f := by
  obtain ⟨_ | ⟨t, ts⟩, u⟩ := f
  · rfl
  · simp_all [skipLine]

theorem isLineEnd_head_skipLine (f : Feed) : f.skipLine.head.kind.isLineEnd := by
  obtain ⟨ts, u⟩ := f
  induction ts with
  | nil => rfl
  | cons t ts ih =>
    by_cases h : t.kind.isLineEnd
    · simp [skipLine, h]
    · simpa [skipLine, h] using ih

/-- Whether `rest` is what is left of `f` behind tokens that do not end a
line. -/
def Reaches (f rest : Feed) : Prop :=
  ∃ ts, f.tokens = ts ++ rest.tokens ∧ f.last = rest.last ∧ ∀ t ∈ ts, ¬ t.kind.isLineEnd

namespace Reaches

theorem refl (f : Feed) : f.Reaches f := ⟨[], rfl, rfl, by simp⟩

theorem trans {f g h : Feed} (hfg : f.Reaches g) (hgh : g.Reaches h) : f.Reaches h := by
  obtain ⟨ts, htokens, hlast, hline⟩ := hfg
  obtain ⟨us, hus, hul, hline'⟩ := hgh
  refine ⟨ts ++ us, by simp [htokens, hus], hlast.trans hul, fun t ht => ?_⟩
  exact (List.mem_append.1 ht).elim (hline t) (hline' t)

theorem tail {f : Feed} (h : ¬ f.head.kind.isLineEnd) : f.Reaches f.tail := by
  obtain ⟨_ | ⟨t, ts⟩, u⟩ := f
  · exact refl _
  · exact ⟨[t], rfl, rfl, by simpa using h⟩

theorem skipLine (f : Feed) : f.Reaches f.skipLine := by
  refine ⟨f.line, List.takeWhile_append_dropWhile.symm, rfl, fun t ht => ?_⟩
  simpa using List.all_eq_true.1 List.all_takeWhile t ht

/-- Feeds in one line have one end of line. -/
theorem skipLine_eq {f rest : Feed} (h : f.Reaches rest) : f.skipLine = rest.skipLine := by
  obtain ⟨ts, htokens, hlast, hline⟩ := h
  simp only [Feed.skipLine, htokens, hlast, Feed.mk.injEq, and_true]
  exact List.dropWhile_append_of_pos (by simpa using hline)

end Reaches

end Feed

end Recipe
