import Mathlib.Data.List.Forall2
import Recipe.Proofs.Line.Basic
import Recipe.Proofs.Token.Joined

/-!
# Recipes with one behind the other

What is put behind a recipe, in a new line, does not change what the recipe is
read as, nor does the recipe change what is read behind it (`parse_append`).
Only the end of the last line is another one: a fault that has found the end of
the text there finds a line feed (`Fault.withEnd`).

## How the proof goes

The tokens of the two recipes stand one behind the other
(`Token.exists_ofSource_append_lineFeed`), so the lines are those of both.  The
last line of the first recipe keeps its tokens and gets another end, which is
what `Feed.Alike.readLine` allows for.
-/

namespace Recipe

open Token (Closed InLine)

/-! ## Faults at the end of a line -/

namespace Fault

/-- The fault of a line that ends with `e` and not with the end of the text. -/
def withEnd (e : Token) (f : Fault) : Fault :=
  match f.cause with
  | .unexpectedToken expected .textEnd => .unexpectedToken expected e
  | _ => f

variable {e e' t : Token} {kind : Kind}

theorem withEnd_unexpectedToken_of_ne (h : t.kind ≠ .textEnd) :
    (unexpectedToken kind t).withEnd e = unexpectedToken kind t := by
  unfold withEnd unexpectedToken ofToken
  split
  · rename_i hcause
    exact absurd (Cause.unexpectedToken.inj hcause).2 h
  · rfl

theorem withEnd_unexpectedToken_of_textEnd (h : t.kind = .textEnd) :
    (unexpectedToken kind t).withEnd e = unexpectedToken kind e := by
  unfold withEnd
  rw [unexpectedToken, ofToken, h]

namespace Alike

variable {a b : Fault}

theorem withEnd_eq (h : Alike .stay e e' a b) (he : e.kind = .textEnd) : b = a.withEnd e' := by
  cases h with
  | token kind ht =>
    rw [withEnd_unexpectedToken_of_ne fun hend => ht (by rw [hend]; rfl)]
    rfl
  | stop kind => rw [withEnd_unexpectedToken_of_textEnd he]
  | _ => rfl

theorem withEnd_eq_self (h : Alike .stay e e a b) (he : e.kind ≠ .textEnd) :
    a.withEnd t = a := by
  cases h with
  | token kind ht => exact withEnd_unexpectedToken_of_ne fun hend => ht (by rw [hend]; rfl)
  | stop kind => exact withEnd_unexpectedToken_of_ne he
  | _ => rfl

end Alike

end Fault

/-! ## Lines with another end -/

section Line

variable {o : Options} {ws : List Token} {e e' : Token}

/-- Two ends for the tokens of a line. -/
theorem Feed.alike_append (hws : InLine ws) (he : e.kind.isLineEnd) (he' : e'.kind.isLineEnd) :
    Feed.Alike .stay e e' ⟨ws ++ [e], e⟩ ⟨ws ++ [e'], e'⟩ where
  line := by
    rw [Feed.line_append hws he, Feed.line_append hws he']
    exact (List.map_id ws).symm
  stop := by
    rw [Feed.skipLine_append hws he]
    rfl
  stop' := by
    rw [Feed.skipLine_append hws he']
    rfl

/-- Of the end of a line, only a fault that finds it knows. -/
theorem parseTokens_alike (o : Options) (hws : InLine ws) (he : e.kind.isLineEnd)
    (he' : e'.kind.isLineEnd) :
    (parseTokens o (ws ++ [e'])).program.toList = (parseTokens o (ws ++ [e])).program.toList ∧
      List.Forall₂ (Fault.Alike .stay e e') (parseTokens o (ws ++ [e])).faults
        (parseTokens o (ws ++ [e'])).faults := by
  by_cases hne : ws = []
  · subst hne
    rw [List.nil_append, List.nil_append, (parseTokens_blank he).1, (parseTokens_blank he).2,
      (parseTokens_blank he').1, (parseTokens_blank he').2]
    exact ⟨rfl, .nil⟩
  · have hhead : ¬ (Feed.head ⟨ws ++ [e], e⟩).kind.isLineEnd := by
      obtain ⟨t, ws, rfl⟩ := List.exists_cons_of_ne_nil hne
      exact (Token.inLine_cons.mp hws).1
    obtain ⟨hstatement, hfault⟩ := (Feed.alike_append hws he he').readLine hhead o
    rw [(parseTokens_line hne hws he).1, (parseTokens_line hne hws he).2,
      (parseTokens_line hne hws he').1, (parseTokens_line hne hws he').2, hstatement]
    refine ⟨by simp, ?_⟩
    generalize (Feed.readLine o ⟨ws ++ [e], e⟩).fault? = a at hfault ⊢
    generalize (Feed.readLine o ⟨ws ++ [e'], e'⟩).fault? = b at hfault ⊢
    cases hfault with
    | none => exact .nil
    | some h => exact .cons h .nil

/-- The end of the text may become any other end of the last line. -/
theorem parseTokens_withEnd (o : Options) (hws : InLine ws) (he : e.kind = .textEnd)
    (he' : e'.kind.isLineEnd) :
    (parseTokens o (ws ++ [e'])).program.toList = (parseTokens o (ws ++ [e])).program.toList ∧
      (parseTokens o (ws ++ [e'])).faults =
        (parseTokens o (ws ++ [e])).faults.map (Fault.withEnd e') := by
  obtain ⟨hstatements, hfaults⟩ := parseTokens_alike o hws (by rw [he]; rfl) he'
  refine ⟨hstatements, Eq.symm ?_⟩
  rw [← List.forall₂_eq_eq_eq, List.forall₂_map_left_iff]
  exact hfaults.imp fun _ _ h => (h.withEnd_eq he).symm

/-- The faults of a line that ends with a line feed have not found the end of
the text. -/
theorem map_withEnd_faults (o : Options) (t : Token) (hws : InLine ws) (he : e.kind = .lineFeed) :
    (parseTokens o (ws ++ [e])).faults.map (Fault.withEnd t) =
      (parseTokens o (ws ++ [e])).faults := by
  have hend : e.kind.isLineEnd := by rw [he]; rfl
  have hfaults := (parseTokens_alike o hws hend hend).2
  rw [List.forall₂_same] at hfaults
  rw [List.map_congr_left fun f hf => (hfaults f hf).withEnd_eq_self (by simp [he])]
  exact List.map_id _

end Line

/-! ## Tokens with others behind them -/

namespace Token.Closed

variable {ws ts us : List Token} {e feed : Token}

/-- The end of the text stands in the last line. -/
theorem dropLast_line (hts : Closed ts) : (ws ++ e :: ts).dropLast = ws ++ e :: ts.dropLast := by
  have hne : ts ≠ [] := by cases hts <;> simp
  rw [List.dropLast_append_of_ne_nil (List.cons_ne_nil e ts), List.dropLast_cons_of_ne_nil hne]

/-- Other lines may stand in place of the end of the text. -/
theorem append (hts : Closed ts) (hfeed : feed.kind = .lineFeed) (hus : Closed us) :
    Closed (ts.dropLast ++ feed :: us) := by
  induction hts with
  | last hws _ =>
    rw [List.dropLast_concat]
    exact .line hws hfeed hus
  | line hws he hts ih =>
    rw [hts.dropLast_line, List.append_assoc]
    exact .line hws he ih

/-- **Tokens with others behind them** are read as they are alone, but for the
end of their last line. -/
theorem parseTokens_append (o : Options) (hts : Closed ts) (hfeed : feed.kind = .lineFeed)
    (hus : Closed us) :
    (parseTokens o (ts.dropLast ++ feed :: us)).program.toList =
        (parseTokens o ts).program.toList ++ (parseTokens o us).program.toList ∧
      (parseTokens o (ts.dropLast ++ feed :: us)).faults =
        (parseTokens o ts).faults.map (Fault.withEnd feed) ++ (parseTokens o us).faults := by
  induction hts with
  | last hws he =>
    have hjoined := hus.parseTokens_line_append o hws hfeed
    have hend : feed.kind.isLineEnd := by rw [hfeed]; rfl
    have hline := parseTokens_withEnd o hws he hend
    rw [List.dropLast_concat, hjoined.1, hjoined.2, hline.1, hline.2]
    exact ⟨rfl, rfl⟩
  | line hws he hts ih =>
    have hjoined := (hts.append hfeed hus).parseTokens_line_append o hws he
    have hline := hts.parseTokens_line_append o hws he
    rw [hts.dropLast_line, List.append_assoc, List.cons_append, hjoined.1, hjoined.2, hline.1,
      hline.2, ih.1, ih.2, List.map_append, map_withEnd_faults o feed hws he, List.append_assoc,
      List.append_assoc]
    exact ⟨rfl, rfl⟩

end Token.Closed

/-! ## Recipes one behind the other -/

/-- Recipes that are joined by a line feed are read one behind the other, if the
first one does not take the line feed in. -/
theorem parse_joined (o : Options) {a : Text} (hclosed : ∀ t ∈ Token.ofSource a, ¬ t.IsUnclosed)
    (hjoin : ¬ Lexeme.JoinsNext a) (b : Text) :
    (parse o (a ++ '\n' :: b)).program.toList =
        (parse o a).program.toList ++
          (parse o b).program.toList.map (Move.below a).statement ∧
      (parse o (a ++ '\n' :: b)).faults =
        (parse o a).faults.map (Fault.withEnd (Token.lineFeedBehind a)) ++
          (parse o b).faults.map (Move.below a).fault := by
  obtain ⟨us, e, ha, he, hjoined⟩ := Token.exists_ofSource_append_lineFeed hclosed hjoin b
  have hfront : us = (Token.ofSource a).dropLast := by rw [ha, List.dropLast_concat]
  have hbelow := (Closed.ofSource b).parseTokens_map (o := o) (Move.below a)
  have hfeed : (Token.lineFeedBehind a).kind = .lineFeed := rfl
  have happend := (Closed.ofSource a).parseTokens_append o hfeed
    ((Closed.ofSource b).map (Move.below a))
  rw [parse, hjoined, hfront, happend.1, happend.2, hbelow.1, hbelow.2]
  exact ⟨rfl, rfl⟩

end Recipe
