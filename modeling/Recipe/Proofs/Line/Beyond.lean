import Mathlib.Data.List.Basic
import Recipe.Proofs.Line.Basic

/-!
# Beyond an end of text

A list of tokens may hold an end of text in front of other tokens.  A reader
stops there if the end stands in a line of its own, and otherwise it takes the
end for the end of a line and goes on behind it.  `Token.beyond` names the
tokens that are read all the same, and `parseTokens_append_textEnd` says when
they make no difference.
-/

namespace Recipe

namespace Token

/-- Whether a new line starts behind the tokens. -/
def AtLineStart (ts : List Token) : Prop := ∀ t ∈ ts.getLast?, t.kind = .lineFeed

instance (ts : List Token) : Decidable (AtLineStart ts) :=
  inferInstanceAs (Decidable (∀ t ∈ ts.getLast?, t.kind = .lineFeed))

/-- What is read behind an end of text, where `ts` stand in front of it and `us`
behind it. -/
def beyond (ts us : List Token) : List Token := if AtLineStart ts then [] else us

variable {ws ts us : List Token} {e : Token}

/-- A line that has ended does not matter to what stands behind it. -/
theorem atLineStart_append_cons (he : e.kind = .lineFeed) :
    AtLineStart (ws ++ e :: ts) ↔ AtLineStart ts := by
  rcases List.eq_nil_or_concat' ts with rfl | ⟨ts, t, rfl⟩
  · rw [AtLineStart, List.getLast?_concat]
    simp [AtLineStart, he]
  · rw [AtLineStart, AtLineStart, ← List.cons_append, ← List.append_assoc, List.getLast?_concat,
      List.getLast?_concat]

theorem beyond_append_cons (he : e.kind = .lineFeed) :
    beyond (ws ++ e :: ts) us = beyond ts us := by
  simp only [beyond, atLineStart_append_cons he]

theorem InLine.not_atLineStart (hws : InLine ws) (hne : ws ≠ []) : ¬ AtLineStart ws := by
  obtain ⟨ws, t, rfl⟩ := (List.eq_nil_or_concat' ws).resolve_left hne
  intro hstart
  apply hws t (by simp)
  rw [hstart t (by simp)]
  rfl

end Token

open Token (Closed InLine beyond)

namespace Feed

variable {o : Options} {ts : List Token} {e : Token}

/-- **Reading goes on** behind an end of text, with the tokens beyond it. -/
theorem readLines_append_textEnd (hts : ∀ t ∈ ts, t.kind ≠ .textEnd) (he : e.kind = .textEnd)
    (us : List Token) (u v : Token) :
    (readLines o ⟨ts ++ e :: us, u⟩).1 =
        (readLines o ⟨ts ++ [e], v⟩).1 ++ (readLines o ⟨beyond ts us, u⟩).1 ∧
      (readLines o ⟨ts ++ e :: us, u⟩).2.1 =
        (readLines o ⟨ts ++ [e], v⟩).2.1 ++ (readLines o ⟨beyond ts us, u⟩).2.1 := by
  have hclosed : Closed (ts ++ [e]) := .of_append hts he
  generalize hall : ts ++ [e] = all at hclosed
  induction hclosed generalizing ts with
  | @last ws e' hws _ =>
    obtain ⟨rfl, rfl⟩ := List.append_singleton_inj.mp hall
    have hend : e.kind.isLineEnd := by rw [he]; rfl
    by_cases hne : ts = []
    · subst hne
      have hstop (f : Feed) (hf : f.head = e) : readLines o f = ([], [], f) :=
        readLines_of_textEnd (by rw [hf, he])
      rw [beyond, if_pos (by simp [Token.AtLineStart]), readLines_of_textEnd (f := ⟨[], u⟩) rfl,
        hstop ⟨_, u⟩ rfl, hstop ⟨_, v⟩ rfl]
      exact ⟨rfl, rfl⟩
    · have hhead : (head ⟨ts ++ [e], e⟩).kind ≠ .textEnd := kind_head_line_ne hws (.inl hne)
      rw [beyond, if_neg (hws.not_atLineStart hne), readLines_append hws hend hhead,
        readLines_line hws hend hhead]
      exact ⟨rfl, rfl⟩
  | @line ws all e' hws he' hall' ih =>
    obtain ⟨us', t, rfl⟩ := (List.eq_nil_or_concat' all).resolve_left (by cases hall' <;> simp)
    rw [← List.cons_append, ← List.append_assoc] at hall
    obtain ⟨rfl, rfl⟩ := List.append_singleton_inj.mp hall
    have hend : e'.kind.isLineEnd := by rw [he']; rfl
    have hhead : (head ⟨ws ++ [e'], e'⟩).kind ≠ .textEnd :=
      kind_head_line_ne hws (.inr (by simp [he']))
    obtain ⟨hstatements, hfaults⟩ := ih (fun t ht => hts t (by simp [ht])) rfl
    rw [List.append_assoc, List.cons_append, Token.beyond_append_cons he',
      readLines_append hws hend hhead, readLines_append hws hend hhead, hstatements, hfaults]
    simp only [List.append_assoc, and_self]

/-- The tokens beyond an end of text are fed as they are by themselves. -/
theorem readLines_beyond (o : Options) (ts us : List Token) (e : Token) :
    (readLines o ⟨beyond ts us, (ofList (ts ++ e :: us)).last⟩).1 =
        (readLines o (.ofList (beyond ts us))).1 ∧
      (readLines o ⟨beyond ts us, (ofList (ts ++ e :: us)).last⟩).2.1 =
        (readLines o (.ofList (beyond ts us))).2.1 := by
  have hnil (u v : Token) : (readLines o ⟨[], u⟩).1 = (readLines o ⟨[], v⟩).1 ∧
      (readLines o ⟨[], u⟩).2.1 = (readLines o ⟨[], v⟩).2.1 := by
    rw [readLines_of_textEnd (f := ⟨[], u⟩) rfl, readLines_of_textEnd (f := ⟨[], v⟩) rfl]
    exact ⟨rfl, rfl⟩
  unfold beyond
  split
  · exact hnil _ _
  · rcases List.eq_nil_or_concat' us with rfl | ⟨us, t, rfl⟩
    · exact hnil _ _
    · rw [← List.cons_append, ← List.append_assoc, ofList_append_singleton,
        ofList_append_singleton]
      exact ⟨rfl, rfl⟩

end Feed

section Parse

variable {o : Options} {ts us : List Token} {e : Token}

/-- Statements and faults are all there is to what tokens are read as. -/
theorem parseTokens_eq_iff :
    parseTokens o ts = parseTokens o us ↔
      (parseTokens o ts).program.toList = (parseTokens o us).program.toList ∧
        (parseTokens o ts).faults = (parseTokens o us).faults := by
  refine ⟨fun h => by rw [h]; exact ⟨rfl, rfl⟩, ?_⟩
  rintro ⟨hstatements, hfaults⟩
  have hprogram : (parseTokens o ts).program = (parseTokens o us).program := by
    rw [program_parseTokens o ts, hstatements, ← program_parseTokens o us]
  calc parseTokens o ts = ⟨(parseTokens o ts).program, (parseTokens o ts).faults⟩ := rfl
    _ = ⟨(parseTokens o us).program, (parseTokens o us).faults⟩ := by rw [hprogram, hfaults]

theorem parseTokens_nil :
    (parseTokens o []).program.toList = [] ∧ (parseTokens o []).faults = [] := by
  rw [toList_parseTokens, faults_parseTokens, Feed.readLines_of_textEnd (by rfl)]
  exact ⟨rfl, rfl⟩

/-- The tokens beyond the end of text are read by a reader of their own. -/
theorem parseTokens_beyond (hts : ∀ t ∈ ts, t.kind ≠ .textEnd) (he : e.kind = .textEnd)
    (us : List Token) :
    (parseTokens o (ts ++ e :: us)).program.toList =
        (parseTokens o (ts ++ [e])).program.toList ++
          (parseTokens o (beyond ts us)).program.toList ∧
      (parseTokens o (ts ++ e :: us)).faults =
        (parseTokens o (ts ++ [e])).faults ++ (parseTokens o (beyond ts us)).faults := by
  obtain ⟨hstatements, hfaults⟩ := Feed.readLines_append_textEnd (o := o) hts he us
    (Feed.ofList (ts ++ e :: us)).last e
  obtain ⟨hrest, hrest'⟩ := Feed.readLines_beyond o ts us e
  simp only [toList_parseTokens, faults_parseTokens, Feed.ofList_append_singleton ts e, ← hrest,
    ← hrest']
  exact ⟨hstatements, hfaults⟩

/-- **What the end of a text ends.**  Of a list of tokens, the first end of text
ends what is read if it stands at the start of a line.  Behind any other line
the reader goes on, and the tokens behind the end are read by themselves; so
they make no difference exactly if the end stands at the start of a line, or if
they yield neither a statement nor a fault. -/
theorem parseTokens_append_textEnd (o : Options) {ts : List Token} {e : Token}
    (hts : ∀ t ∈ ts, t.kind ≠ .textEnd) (he : e.kind = .textEnd) (us : List Token) :
    let whole := parseTokens o (ts ++ e :: us)
    let front := parseTokens o (ts ++ [e])
    let rest := parseTokens o us
    (Token.AtLineStart ts → whole = front) ∧
      (¬ Token.AtLineStart ts →
        whole.program.toList = front.program.toList ++ rest.program.toList ∧
          whole.faults = front.faults ++ rest.faults) ∧
      (whole = front ↔ Token.AtLineStart ts ∨ rest.program.toList = [] ∧ rest.faults = []) := by
  intro whole front rest
  obtain ⟨hstatements, hfaults⟩ := parseTokens_beyond (o := o) hts he us
  by_cases hstart : Token.AtLineStart ts
  · rw [beyond, if_pos hstart, parseTokens_nil.1, List.append_nil] at hstatements
    rw [beyond, if_pos hstart, parseTokens_nil.2, List.append_nil] at hfaults
    have heq : whole = front := parseTokens_eq_iff.mpr ⟨hstatements, hfaults⟩
    exact ⟨fun _ => heq, fun h => absurd hstart h, iff_of_true heq (.inl hstart)⟩
  · rw [beyond, if_neg hstart] at hstatements hfaults
    refine ⟨fun h => absurd h hstart, fun _ => ⟨hstatements, hfaults⟩, ?_⟩
    rw [parseTokens_eq_iff, hstatements, hfaults, List.append_right_eq_self,
      List.append_right_eq_self]
    exact (or_iff_right hstart).symm

/-- A stage, an end of text behind it, and a command behind that. -/
theorem parseTokens_append_textEnd_stage :
    let ts : List Token := [.bare (.keyword .fromImage) "FROM".toList, .bare .word ['a']]
    let e : Token := .bare .textEnd []
    let us : List Token := [.bare (.keyword .run) "RUN".toList, .bare .word ['b'], e]
    (∀ t ∈ ts, t.kind ≠ .textEnd) ∧ e.kind = .textEnd ∧ ¬ Token.AtLineStart ts ∧
      (parseTokens .strict (ts ++ e :: us)).program.toList =
          (parseTokens .strict (ts ++ [e])).program.toList ++
            (parseTokens .strict us).program.toList ∧
        (parseTokens .strict (ts ++ e :: us)).faults =
          (parseTokens .strict (ts ++ [e])).faults ++ (parseTokens .strict us).faults := by
  intro ts e us
  have hts : ∀ t ∈ ts, t.kind ≠ .textEnd := by decide
  have hstart : ¬ Token.AtLineStart ts := by decide
  exact ⟨hts, rfl, hstart, (parseTokens_append_textEnd .strict hts rfl us).2.1 hstart⟩

/-- An end of text does not end a list of tokens: the statement behind it is
read. -/
theorem parseTokens_behind_textEnd :
    let front : List Token :=
      [.bare (.keyword .fromImage) "FROM".toList, .bare .word ['a'], .bare .textEnd []]
    let us : List Token :=
      [.bare (.keyword .run) "RUN".toList, .bare .word ['b'], .bare .textEnd []]
    parseTokens .strict (front ++ us) ≠ parseTokens .strict front ∧
      (parseTokens .strict (front ++ us)).program.toList.map Statement.head =
        ["FROM".toList, "RUN".toList] := by
  decide +kernel

end Parse

end Recipe
