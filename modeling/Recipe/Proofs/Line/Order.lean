import Recipe.Proofs.Line.Recovery
import Recipe.Proofs.Token.Excerpt

/-!
# The order of tokens and lines

The tokens of a source stand one behind the other (`Token.inOrder_ofSource`),
and so do its lines.  A line yields at most one statement and at most one fault,
so what the lines yield is in order as soon as it stands where its line stands
(`Token.InOrder.pairwise_flatMap_lines`).
-/

namespace Recipe

/-- The first span starts in front of the second one and does not reach into
it. -/
structure Span.Before (s t : Span) : Prop where
  start_lt : s.start < t.start
  stop_le : s.stop ≤ t.start

theorem Span.not_before_self (s : Span) : ¬ s.Before s := fun h => lt_irrefl _ h.start_lt

namespace Token

/-- Every token stands in front of those behind it. -/
def InOrder (ts : List Token) : Prop := ts.Pairwise fun t u => t.span.Before u.span

/-- Every token of the first line stands in front of every token of the
second. -/
def Ahead (l m : List Token) : Prop := ∀ t ∈ l, ∀ u ∈ m, t.span.Before u.span

/-- **The tokens of a source are in order**, if it is not too long for its
offsets.  The closing one covers nothing, but there is no other token behind
it. -/
theorem inOrder_ofSource {source : Text} (hsize : source.byteSize ≤ largest) :
    InOrder (ofSource source) := by
  have hpairwise := pairwise_placed .start (Lexeme.sequence source)
  rw [← ofSource_eq_placed] at hpairwise
  obtain ⟨us, e, hsource, -, hus⟩ := exists_ofSource_eq_append source
  have hnonempty : ∀ t ∈ us, t.span.start < t.span.stop := fun t ht =>
    (laid_ofSource hsize).nonempty t (hsource ▸ List.mem_append_left _ ht) (hus t ht)
  rw [InOrder, hsource, List.pairwise_append]
  rw [hsource, List.pairwise_append] at hpairwise
  obtain ⟨hordered, -, hlast⟩ := hpairwise
  refine ⟨hordered.imp_of_mem fun ht _ hle => ?_, List.pairwise_singleton _ _, fun t ht u hu => ?_⟩
  · exact ⟨(hnonempty _ ht).trans_le hle, hle⟩
  · exact ⟨(hnonempty t ht).trans_le (hlast t ht u hu), hlast t ht u hu⟩

namespace InOrder

section Head

variable {h t : Token} {ts : List Token}

theorem sublist {us : List Token} (hts : InOrder ts) (hus : us.Sublist ts) : InOrder us :=
  List.Pairwise.sublist hus hts

/-- No token starts in front of the first one. -/
theorem start_le_of_mem (hts : InOrder (h :: ts)) (ht : t ∈ h :: ts) :
    h.span.start ≤ t.span.start := by
  rcases List.mem_cons.mp ht with rfl | ht
  · exact le_rfl
  · exact (List.rel_of_pairwise_cons hts ht).start_lt.le

/-- No token ends behind the last one. -/
theorem stop_le_of_mem (hts : InOrder (h :: ts))
    (hnonempty : ∀ t ∈ h :: ts, t.span.start < t.span.stop) (ht : t ∈ h :: ts) :
    t.span.stop ≤ (ts.getLastD h).span.stop := by
  rcases List.eq_nil_or_concat' ts with rfl | ⟨us, u, rfl⟩
  · rw [List.mem_singleton.mp ht]
    exact le_rfl
  · rw [List.getLastD_concat]
    rw [← List.cons_append] at ht hnonempty
    rw [InOrder, ← List.cons_append] at hts
    rcases List.mem_append.mp ht with ht | ht
    · have hbefore := (List.pairwise_append.mp hts).2.2 t ht u (by simp)
      exact hbefore.stop_le.trans (hnonempty u (by simp)).le
    · rw [List.mem_singleton.mp ht]

/-- The smallest span around tokens reaches from the first one to the last
one. -/
theorem merge_span (hts : InOrder (h :: ts))
    (hnonempty : ∀ t ∈ h :: ts, t.span.start < t.span.stop) :
    h.span.merge (ts.getLastD h).span = ⟨h.span.start, (ts.getLastD h).span.stop⟩ := by
  have hmem : ts.getLastD h ∈ h :: ts := List.getLastD_mem_cons
  rw [Span.merge, min_eq_left (hts.start_le_of_mem hmem),
    max_eq_right (hts.stop_le_of_mem hnonempty List.mem_cons_self)]

end Head

section Lines

variable {ts : List Token}

/-- Where tokens are in order, their lines are. -/
theorem pairwise_lines (hts : InOrder ts) : (lines ts).Pairwise Ahead := by
  rw [InOrder, ← flatten_lines ts, List.pairwise_flatten] at hts
  exact hts.2

/-- What the lines yield one by one is in the order of the lines. -/
theorem pairwise_flatMap_lines {α : Type} {S : α → α → Prop} {f : List Token → List α}
    (hts : InOrder ts) (hone : ∀ l ∈ lines ts, (f l).length ≤ 1)
    (hf : ∀ l ∈ lines ts, ∀ m ∈ lines ts, Ahead l m → ∀ x ∈ f l, ∀ y ∈ f m, S x y) :
    ((lines ts).flatMap f).Pairwise S := by
  rw [List.pairwise_flatMap]
  refine ⟨fun l hl => ?_, hts.pairwise_lines.imp_of_mem fun hl hm hlm => hf _ hl _ hm hlm⟩
  have hlength := hone l hl
  match f l, hlength with
  | [], _ => exact .nil
  | [x], _ => exact List.pairwise_singleton S x

/-- A token stands in one line only. -/
theorem eq_of_mem_lines {l m : List Token} {t u : Token} (hts : InOrder ts) (hl : l ∈ lines ts)
    (hm : m ∈ lines ts) (ht : t ∈ l) (hu : u ∈ m) (hspan : t.span = u.span) : l = m := by
  have : Std.Symm fun l m => l = m ∨ Ahead l m ∨ Ahead m l :=
    ⟨fun _ _ h => h.imp Eq.symm Or.symm⟩
  have hpairwise : (lines ts).Pairwise fun l m => l = m ∨ Ahead l m ∨ Ahead m l :=
    hts.pairwise_lines.imp fun h => .inr (.inl h)
  rcases hpairwise.forall_of_forall (fun _ _ => .inl rfl) hl hm with heq | hahead | hahead
  · exact heq
  · exact absurd (hspan ▸ hahead t ht u hu) (Span.not_before_self _)
  · exact absurd (hspan ▸ hahead u hu t ht) (Span.not_before_self _)

end Lines

end InOrder

end Token

end Recipe
