import Recipe.Proofs.Lexeme.Piece
import Recipe.Proofs.Place.Move

/-!
# Excerpts of a source

A source that is cut in front of a token and behind another has, between the
cuts, these tokens and those between them, `n` bytes closer to its start if the
first cut is made behind `n` bytes (`exists_slice`).  That is so because its
lexemes are the same there (`Lexeme.exists_piece`), and tokens are lexemes in
their places.
-/

namespace Recipe.Token

open Lexeme (taken)

variable {p q : Place} {xs : List (Text × Lexeme)}

theorem placed_append (p : Place) (xs ys : List (Text × Lexeme)) :
    placed p (xs ++ ys) = placed p xs ++ placed (p.after (taken xs)) ys := by
  induction xs generalizing p with
  | nil => rfl
  | cons x xs ih =>
    rw [List.cons_append, placed, ih, placed, Lexeme.taken_cons, Place.after_append,
      Place.after_append]
    rfl

/-- What tokens are does not depend on where they stand. -/
theorem forall_mem_placed_iff {P : Kind → Text → Prop} :
    (∀ t ∈ placed p xs, P t.kind t.literal) ↔ ∀ x ∈ xs, P x.2.kind x.2.literal := by
  induction xs generalizing p with
  | nil => simp [placed]
  | cons x xs ih =>
    rw [placed, List.forall_mem_cons, List.forall_mem_cons, ih]
    rfl

/-- Where tokens are cut in two, so are their gaps and lexemes. -/
theorem exists_of_placed_eq_append {ts us : List Token} (h : placed p xs = ts ++ us) :
    ∃ ys zs, xs = ys ++ zs ∧ placed p ys = ts ∧ placed (p.after (taken ys)) zs = us := by
  induction ts generalizing p xs with
  | nil => exact ⟨[], xs, rfl, rfl, h⟩
  | cons t ts ih =>
    cases xs with
    | nil => cases h
    | cons x xs =>
      obtain ⟨rfl, hxs⟩ := List.cons.inj h
      obtain ⟨ys, zs, rfl, rfl, rfl⟩ := ih hxs
      refine ⟨x :: ys, zs, rfl, rfl, ?_⟩
      rw [Lexeme.taken_cons, Place.after_append, Place.after_append]

/-- Tokens are the lexemes of their source, in the places where these stand. -/
theorem mem_ofSource_iff {source : Text} {t : Token} :
    t ∈ ofSource source ↔ ∃ as gap x bs, Lexeme.sequence source = as ++ (gap, x) :: bs ∧
      t = x.toToken (Place.start.after (taken as ++ gap)) := by
  rw [ofSource_eq_placed]
  constructor
  · intro ht
    obtain ⟨ts, us, hsource⟩ := List.append_of_mem ht
    obtain ⟨as, zs, hsequence, -, hzs⟩ := exists_of_placed_eq_append hsource
    obtain _ | ⟨⟨gap, x⟩, bs⟩ := zs
    · cases hzs
    · refine ⟨as, gap, x, bs, hsequence, ?_⟩
      rw [Place.after_append, (List.cons.inj hzs).1]
  · rintro ⟨as, gap, x, bs, hsequence, rfl⟩
    rw [hsequence, placed_append, placed, Place.after_append]
    exact List.mem_append_right _ List.mem_cons_self

theorem saturate_offset_le_of_mem_placed {t : Token} (ht : t ∈ placed p xs) :
    saturate p.offset ≤ t.span.start := by
  induction xs generalizing p with
  | nil => cases ht
  | cons x xs ih =>
    rw [placed] at ht
    rcases List.mem_cons.mp ht with rfl | ht
    · exact saturate_le_saturate (by simp)
    · refine le_trans (saturate_le_saturate ?_) (ih ht)
      simp only [Place.offset_after]
      omega

/-- Of two tokens, one ends before the other starts. -/
theorem pairwise_placed (p : Place) (xs : List (Text × Lexeme)) :
    (placed p xs).Pairwise fun t u => t.span.stop ≤ u.span.start := by
  induction xs generalizing p with
  | nil => exact .nil
  | cons x xs ih =>
    refine .cons (fun u hu => ?_) (ih _)
    have hle := saturate_offset_le_of_mem_placed hu
    rwa [Place.offset_after] at hle

/-- A lexeme is the same token in any two places, but for these. -/
theorem shift_toToken {n : Nat} {x : Lexeme} (h : q.offset = p.offset + n)
    (hsize : q.offset + x.text.byteSize ≤ largest) :
    (Move.shift n).token (x.toToken p) = (Move.shift 0).token (x.toToken q) := by
  rw [h] at hsize
  simp only [Lexeme.toToken, Move.token, Move.shift, h, Nat.add_zero]
  rw [Span.ofBytes_of_le (by omega) (by omega), Span.ofBytes_of_le (by omega) hsize,
    Nat.add_right_comm]

/-- Lexemes make up the same tokens from any two places on, but for these. -/
theorem map_shift_placed {n : Nat} (h : q.offset = p.offset + n)
    (hsize : q.offset + (taken xs).byteSize ≤ largest) :
    (placed p xs).map (Move.shift n).token = (placed q xs).map (Move.shift 0).token := by
  induction xs generalizing p q with
  | nil => rfl
  | cons x xs ih =>
    have hafter (p' q' : Place) (t : Text) (h' : q'.offset = p'.offset + n) :
        (q'.after t).offset = (p'.after t).offset + n := by
      rw [Place.offset_after, Place.offset_after, h', Nat.add_right_comm]
    have hgap := hafter p q x.1 h
    rw [Lexeme.taken_cons, Text.byteSize_append, Text.byteSize_append] at hsize
    have hx : (q.after x.1).offset + x.2.text.byteSize ≤ largest := by
      rw [Place.offset_after]
      omega
    have hxs : ((q.after x.1).after x.2.text).offset + (taken xs).byteSize ≤ largest := by
      simp only [Place.offset_after]
      omega
    rw [placed, placed, List.map_cons, List.map_cons, shift_toToken hgap hx,
      ih (hafter _ _ x.2.text hgap) hxs]

/-- Tokens cover what their lexemes take, but for the gap in front of them. -/
theorem merge_placed {gap : Text} {x : Lexeme} {h : Token} {ts : List Token}
    (hts : placed p ((gap, x) :: xs) = h :: ts) :
    h.span.merge (ts.getLastD h).span =
      .ofBytes (p.after gap).offset ((p.after gap).after (taken (([], x) :: xs))).offset := by
  obtain ⟨rfl, rfl⟩ := List.cons.inj hts
  rcases List.eq_nil_or_concat' xs with rfl | ⟨xs, ⟨gap', y⟩, rfl⟩
  · simp [placed, Lexeme.toToken, Span.merge, taken]
  · rw [placed_append, placed, placed, List.getLastD_concat, Lexeme.taken_cons,
      Lexeme.taken_append, Lexeme.taken_cons]
    simp only [Lexeme.toToken, Span.merge_ofBytes, Place.offset_after, Text.byteSize_append,
      Text.byteSize_nil, taken, List.flatMap_nil]
    congr 1 <;> omega

/-- **Excerpts have the tokens they cover.**  The smallest span around two
tokens of a source that is not too long for its offsets covers a piece that has
these tokens, those between them and an end. -/
theorem exists_slice {source : Text} {as ts bs : List Token} {h : Token} {span : Span}
    (hsize : source.byteSize ≤ largest) (hsource : ofSource source = as ++ (h :: ts ++ bs))
    (hbs : bs ≠ []) (hspan : span = h.span.merge (ts.getLastD h).span) :
    ∃ piece e, source.slice? span = some piece ∧ e.kind = .textEnd ∧
      (ofSource piece).map (Move.shift span.start).token =
        (h :: ts ++ [e]).map (Move.shift 0).token := by
  rw [ofSource_eq_placed] at hsource
  obtain ⟨xs, ys, hsequence, -, hys⟩ := exists_of_placed_eq_append hsource
  obtain ⟨ys, zs, rfl, hts, rfl⟩ := exists_of_placed_eq_append hys
  obtain _ | ⟨⟨gap, x⟩, ys⟩ := ys
  · cases hts
  obtain ⟨r, rfl, hpiece⟩ := Lexeme.exists_piece hsequence (by rintro rfl; exact hbs rfl)
  have hsize' : (taken xs ++ gap).byteSize + (taken (([], x) :: ys)).byteSize ≤ largest := by
    rw [Text.byteSize_append _ r, Text.byteSize_append _ (taken _)] at hsize
    omega
  have hslice : span = ⟨(taken xs ++ gap).byteSize,
      (taken xs ++ gap ++ taken (([], x) :: ys)).byteSize⟩ := by
    rw [hspan, merge_placed hts, ← Place.after_append, ← Place.after_append,
      Place.offset_after, Place.offset_after, Place.offset_start, Nat.zero_add, Nat.zero_add,
      Text.byteSize_append _ (taken _)]
    exact Span.ofBytes_of_le (by omega) hsize'
  have hmoved : (placed .start (([], x) :: ys)).map (Move.shift span.start).token =
      (h :: ts).map (Move.shift 0).token := by
    have hstart : ((Place.start.after (taken xs)).after gap).offset = span.start := by
      rw [← Place.after_append, Place.offset_after, hslice, Place.offset_start, Nat.zero_add]
    rw [← hts]
    refine map_shift_placed (q := (Place.start.after (taken xs)).after gap) ?_ ?_
    · rw [hstart, Place.offset_start, Nat.zero_add]
    · rwa [hstart, hslice]
  let e := (Lexeme.verbatim .textEnd []).toToken (Place.start.after (taken (([], x) :: ys)))
  refine ⟨taken (([], x) :: ys), (Move.shift span.start).token e, ?_, rfl, ?_⟩
  · rw [hslice]
    exact Text.slice?_append _ _ r
  · rw [ofSource_eq_placed, hpiece, placed_append, List.map_append, List.map_append, hmoved]
    rfl

end Recipe.Token
