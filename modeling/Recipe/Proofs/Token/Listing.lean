import Mathlib.Data.List.Forall2
import Recipe.Proofs.Text.Quoted
import Recipe.Report

/-!
# The listing of tokens

A listing has a line for each token, and it says everything of its tokens but
their spans (`Token.listing_eq_listing_iff`).  The parts of a line end by
themselves: the line number at its colon, the column at a space, the name of the
kind at the next one, since no name holds a space, and the literal at its
closing quote.  So a line can be told from whatever stands behind it
(`Token.listed_append_inj`), though a literal may hold the text of another line.
-/

namespace Recipe

theorem Position.text_append_inj {p q : Position} {x y : Text} (hx : Text.EndsNumber x)
    (hy : Text.EndsNumber y) (heq : p.text ++ x = q.text ++ y) : p = q ∧ x = y := by
  obtain ⟨line, column⟩ := p
  obtain ⟨line', column'⟩ := q
  have hcolon (t : Text) : Text.EndsNumber (':' :: t) := Text.endsNumber_cons (by decide) t
  simp only [text, List.append_assoc, List.cons_append] at heq
  obtain ⟨rfl, hbehind⟩ := Text.ofNat_append_inj (hcolon _) (hcolon _) heq
  obtain ⟨rfl, rfl⟩ := Text.ofNat_append_inj hx hy (List.cons.inj hbehind).2
  exact ⟨rfl, rfl⟩

theorem Position.lineFeed_notMem_text (p : Position) : '\n' ∉ p.text := by
  have hdigits (n : Nat) : '\n' ∉ Text.ofNat n :=
    fun h => absurd (Text.isDigit_of_mem_ofNat h) (by decide)
  simp [text, hdigits]

/-- The names of kinds are words. -/
theorem Kind.space_notMem_name (k : Kind) : ' ' ∉ k.name ∧ '\n' ∉ k.name := by
  have hnames : ∀ k ∈ all, ' ' ∉ k.name ∧ '\n' ∉ k.name := by decide
  exact hnames k (mem_all k)

namespace Token

/-- Whether two tokens are the same but for what they cover. -/
structure ListedAlike (t u : Token) : Prop where
  position : t.position = u.position
  kind : t.kind = u.kind
  literal : t.literal = u.literal

theorem ListedAlike.listed_eq {t u : Token} (h : ListedAlike t u) : t.listed = u.listed := by
  rw [listed, listed, h.position, h.kind, h.literal]

/-- **One line** tells its token, but for the span, and where it ends. -/
theorem listed_append_inj {t u : Token} {x y : Text} (heq : t.listed ++ x = u.listed ++ y) :
    ListedAlike t u ∧ x = y := by
  have hspace (t : Text) : Text.EndsNumber (' ' :: t) := Text.endsNumber_cons (by decide) t
  simp only [listed, List.append_assoc, List.cons_append] at heq
  obtain ⟨hposition, hbehind⟩ := Position.text_append_inj (hspace _) (hspace _) heq
  obtain ⟨hname, hquoted⟩ := Text.append_cons_inj t.kind.space_notMem_name.1
    u.kind.space_notMem_name.1 (List.cons.inj hbehind).2
  obtain ⟨hliteral, rfl⟩ := Text.quoted_append_inj hquoted
  exact ⟨⟨hposition, Kind.name_injective hname, hliteral⟩, rfl⟩

theorem lineFeed_notMem_listed (t : Token) : '\n' ∉ t.listed := by
  simp [listed, t.position.lineFeed_notMem_text, t.kind.space_notMem_name.2,
    Text.lineFeed_notMem_quoted]

theorem listing_cons (t : Token) (ts : List Token) :
    listing (t :: ts) = t.listed ++ '\n' :: listing ts := by
  rw [listing, List.flatMap_cons, List.append_assoc, List.singleton_append, ← listing]

/-- There is one line feed for each token. -/
theorem count_lineFeed_listing (ts : List Token) : (listing ts).count '\n' = ts.length := by
  induction ts with
  | nil => rfl
  | cons t ts ih =>
    have hline : t.listed.count '\n' = 0 := List.count_eq_zero.mpr t.lineFeed_notMem_listed
    rw [listing_cons, List.count_append, List.count_cons_self, hline, ih, List.length_cons,
      Nat.zero_add]

/-- Cut at its line feeds, a listing is the lines of its tokens. -/
theorem splitOn_listing (ts : List Token) :
    (listing ts).splitOn '\n' = ts.map listed ++ [[]] := by
  induction ts with
  | nil => rfl
  | cons t ts ih =>
    rw [listing_cons, List.splitOn_append_cons_self_of_not_mem t.lineFeed_notMem_listed, ih]
    rfl

theorem forall₂_of_listing_eq {ts us : List Token} (h : listing ts = listing us) :
    List.Forall₂ ListedAlike ts us := by
  induction ts generalizing us with
  | nil =>
    cases us with
    | nil => exact .nil
    | cons u us => simp [listing] at h
  | cons t ts ih =>
    cases us with
    | nil => simp [listing] at h
    | cons u us =>
      rw [listing_cons, listing_cons] at h
      obtain ⟨halike, hbehind⟩ := listed_append_inj h
      exact .cons halike (ih (List.cons.inj hbehind).2)

/-- **A listing loses nothing but spans.**  It has as many line feeds as tokens;
cut at them, it is the lines of its tokens, with nothing behind the last line
feed; and two listings are the same exactly if their tokens are so, one by one,
but for their spans. -/
theorem listing_eq_listing_iff (ts us : List Token) :
    (listing ts).count '\n' = ts.length ∧
      (listing ts).splitOn '\n' = ts.map listed ++ [[]] ∧
      (listing ts = listing us ↔ List.Forall₂ ListedAlike ts us) := by
  refine ⟨count_lineFeed_listing ts, splitOn_listing ts, forall₂_of_listing_eq, fun h => ?_⟩
  induction h with
  | nil => rfl
  | cons halike _ ih => rw [listing_cons, listing_cons, halike.listed_eq, ih]

/-- A literal with a line feed and the text of a listing in it. -/
example :
    listing [⟨.illegal, "\"\n1:2 EOL \\".toList, ⟨3, 1⟩, ⟨9, 20⟩⟩] =
      "3:1 ILLEGAL \"\\\"\\n1:2 EOL \\\\\"\n".toList := by
  decide +kernel

end Token

end Recipe
