import Recipe.Proofs.Lexeme.Split

/-!
# The room that words take

Between two bare words of a text there is something else, or they would be one.
So a text whose last character is a line feed has at least one more character
for each bare word than the word itself (`Token.room_scan_le`).
-/

namespace Recipe

open Lexeme (IsSequence Stops taken)

namespace Token

/-- The characters of the bare words among the tokens, and one behind each. -/
def room : List Token → Nat
  | [] => 0
  | t :: ts => (if t.kind.isBare then t.literal.length + 1 else 0) + room ts

theorem room_cons_of_isBare {t : Token} (h : t.kind.isBare) (ts : List Token) :
    room (t :: ts) = t.literal.length + 1 + room ts := by
  rw [room, if_pos h]

theorem room_cons_of_not_isBare {t : Token} (h : ¬ t.kind.isBare) (ts : List Token) :
    room (t :: ts) = room ts := by
  rw [room, if_neg h, Nat.zero_add]

theorem room_append (ts us : List Token) : room (ts ++ us) = room ts + room us := by
  induction ts with
  | nil => exact (Nat.zero_add _).symm
  | cons t ts ih => rw [List.cons_append, room, room, ih, Nat.add_assoc]

/-- Bare words, each with a blank in front of it. -/
theorem length_flatMap_space {ts : List Token} (h : ∀ t ∈ ts, t.kind.isBare) :
    (ts.flatMap fun t => ' ' :: t.literal).length = room ts := by
  induction ts with
  | nil => rfl
  | cons t ts ih =>
    obtain ⟨ht, hts⟩ := List.forall_mem_cons.mp h
    rw [List.flatMap_cons, List.length_append, ih hts, room_cons_of_isBare ht]
    rfl

/-- Whether the last character of the text, if there is one, is a line feed. -/
def EndsLine (t : Text) : Prop := ∀ c ∈ t.getLast?, c = '\n'

theorem endsLine_concat (t : Text) : EndsLine (t ++ ['\n']) := by
  intro c hc
  rw [List.getLast?_concat] at hc
  exact (Option.some.inj hc).symm

theorem EndsLine.of_append {t u : Text} (h : EndsLine (t ++ u)) : EndsLine u := by
  intro c hc
  exact h c (List.mem_getLast?_append_of_mem_getLast? hc)

/-- The bare words among lexemes have room in the text, and where it does not
start with one of them, there is some room left. -/
theorem room_sequence_le {xs : List (Text × Lexeme)} (h : IsSequence xs)
    (hend : EndsLine (taken xs)) :
    room (xs.map fun p => bare p.2.kind p.2.literal) ≤ (taken xs).length ∧
      (Stops (taken xs) → taken xs ≠ [] →
        room (xs.map fun p => bare p.2.kind p.2.literal) < (taken xs).length) := by
  induction h with
  | last _ =>
    refine ⟨Nat.zero_le _, fun _ hne => ?_⟩
    exact List.length_pos_iff.mpr hne
  | @cons gap x xs hgap _ hx hheads _ ih =>
    rw [Lexeme.taken_cons, ← List.append_assoc] at hend
    obtain ⟨hle, hlt⟩ := ih hend.of_append
    rw [Lexeme.taken_cons, List.map_cons, List.length_append, List.length_append]
    by_cases hbare : x.kind.isBare
    · obtain ⟨hword, hliteral, hstops⟩ := hheads.of_isBare hbare
      have hne : taken xs ≠ [] := by
        intro hnil
        rw [hnil, List.append_nil] at hend
        obtain ⟨u, c, htext⟩ := List.eq_nil_or_concat' x.text |>.resolve_left hword.ne_nil
        have hlast : c = '\n' := hend.of_append c (by rw [htext, List.getLast?_concat]; rfl)
        exact hword.units.lineFeed_notMem (by simp [htext, hlast])
      have hrest := hlt hstops hne
      rw [room_cons_of_isBare hbare, show (bare x.kind x.literal).literal = x.text from hliteral]
      refine ⟨by omega, fun hstart _ => ?_⟩
      have hgap : gap ≠ [] := by
        rintro rfl
        exact hword.ne_nil (Lexeme.stops_iff.mp hstart x.text hword.units
          (List.prefix_append x.text (taken xs)))
      have hpos := List.length_pos_iff.mpr hgap
      omega
    · rw [room_cons_of_not_isBare hbare]
      have hpos := List.length_pos_iff.mpr (hheads.text_ne_nil hx)
      exact ⟨by omega, fun _ _ => by omega⟩

/-- **Bare words have room**: a text that ends in a line feed is at least as
long as its bare words with a character behind each, and longer if it does not
start with one of them. -/
theorem room_scan_le {t : Text} (h : EndsLine t) :
    room (scan t) ≤ t.length ∧ (Stops t → t ≠ [] → room (scan t) < t.length) := by
  have hroom := room_sequence_le (Lexeme.isSequence_sequence t)
  rw [Lexeme.taken_sequence] at hroom
  exact hroom h

end Token

end Recipe
