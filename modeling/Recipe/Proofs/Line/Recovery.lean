import Mathlib.Data.List.Basic
import Recipe.Proofs.Line.Basic

/-!
# Going on behind a fault

Whatever is wrong with a line, the reader goes on with the next one as if that
one stood alone.  This holds of every list of tokens that has an end of text at
its end or nowhere.  In the second case the reader makes one up (`Token.close`),
which is read like one that is there (`Feed.readLines_close`).
-/

namespace Recipe

namespace Token

/-- The tokens with an end of text behind the last one, unless that is one. -/
def close (ts : List Token) : List Token :=
  match ts.getLast? with
  | some t => if t.kind = .textEnd then ts else ts ++ [t.ending]
  | none => []

theorem close_append_singleton (ts : List Token) (t : Token) :
    close (ts ++ [t]) = if t.kind = .textEnd then ts ++ [t] else ts ++ [t] ++ [t.ending] := by
  rw [close, List.getLast?_concat]

/-- Tokens with no end of text in front of the last one are closed. -/
theorem closed_close {ts : List Token} {t : Token} (h : ∀ u ∈ ts, u.kind ≠ .textEnd) :
    Closed (close (ts ++ [t])) := by
  rw [close_append_singleton]
  split
  · rename_i ht
    exact .of_append h ht
  · rename_i ht
    refine .of_append ?_ t.kind_ending
    exact List.forall_mem_append.mpr ⟨h, by simpa using ht⟩

end Token

namespace Feed

/-- The feed with its end among its tokens. -/
def close (f : Feed) : Feed := ⟨f.tokens ++ [f.last.ending], f.last.ending⟩

theorem head_close (f : Feed) : f.close.head = f.head := by
  obtain ⟨_ | ⟨t, ts⟩, u⟩ := f <;> rfl

theorem line_close (f : Feed) : f.close.line = f.line := by
  obtain ⟨ts, u⟩ := f
  induction ts with
  | nil => rfl
  | cons t ts ih =>
    by_cases ht : t.kind.isLineEnd
    · simp [close, line, ht]
    · simpa [close, line, ht] using ih

theorem skipLine_close (f : Feed) : f.close.skipLine = f.skipLine.close := by
  obtain ⟨ts, u⟩ := f
  induction ts with
  | nil => rfl
  | cons t ts ih =>
    by_cases ht : t.kind.isLineEnd
    · simp [close, skipLine, ht]
    · simpa [close, skipLine, ht] using ih

/-- The end among the tokens ends the last line as the other one does. -/
theorem sameLine_close (f : Feed) : SameLine .stay f f.close where
  line := by
    rw [line_close]
    exact (List.map_id _).symm
  stop := by
    rw [skipLine_close, head_close]
    rfl

/-- A feed is read in the same way whether its end stands among its tokens or
not. -/
theorem readLines_close (o : Options) (f : Feed) :
    (readLines o f.close).1 = (readLines o f).1 ∧
      (readLines o f.close).2.1 = (readLines o f).2.1 := by
  induction f using lines_induction with
  | stop f h =>
    rw [readLines_of_textEnd h, readLines_of_textEnd (by rw [head_close, h])]
    exact ⟨rfl, rfl⟩
  | line f h ih =>
    obtain ⟨hstatement, hfault⟩ := f.sameLine_close.readLine o
    have htail : (readLines o f.close.skipLine.tail).1 = (readLines o f.skipLine.tail).1 ∧
        (readLines o f.close.skipLine.tail).2.1 = (readLines o f.skipLine.tail).2.1 := by
      rw [skipLine_close]
      generalize f.skipLine = g at ih ⊢
      obtain ⟨_ | ⟨t, ts⟩, u⟩ := g
      -- Behind the end of the text there is nothing left in either feed.
      · rw [readLines_of_textEnd (by rfl), readLines_of_textEnd (by rfl)]
        exact ⟨rfl, rfl⟩
      · exact ih
    rw [readLines_of_ne_textEnd h, readLines_of_ne_textEnd (by rwa [head_close]), hstatement,
      hfault, htail.1, htail.2]
    simp

end Feed

/-! ## Lists of tokens and their lines -/

section Parse

open Token (close lines)

variable {o : Options} {ts : List Token}

/-- An end of text may be put behind a list of tokens that has none. -/
theorem parseTokens_close (o : Options) (ts : List Token) :
    (parseTokens o (close ts)).program.toList = (parseTokens o ts).program.toList ∧
      (parseTokens o (close ts)).faults = (parseTokens o ts).faults := by
  simp only [toList_parseTokens, faults_parseTokens]
  rcases List.eq_nil_or_concat' ts with rfl | ⟨us, t, rfl⟩
  · exact ⟨rfl, rfl⟩
  · rw [Token.close_append_singleton]
    split
    · exact ⟨rfl, rfl⟩
    · rw [Feed.ofList_append_singleton, Feed.ofList_append_singleton]
      exact Feed.readLines_close o ⟨us ++ [t], t⟩

/-- A line yields one statement at most, and one fault at most. -/
theorem length_parseTokens_line_le {ws : List Token} {e : Token} (hws : Token.InLine ws)
    (he : e.kind.isLineEnd) :
    (parseTokens o (ws ++ [e])).program.toList.length ≤ 1 ∧
      (parseTokens o (ws ++ [e])).faults.length ≤ 1 := by
  by_cases hne : ws = []
  · subst hne
    rw [List.nil_append, (parseTokens_blank he).1, (parseTokens_blank he).2]
    simp
  · rw [(parseTokens_line hne hws he).1, (parseTokens_line hne hws he).2]
    exact ⟨Option.length_toList_le, Option.length_toList_le⟩

theorem Token.Closed.length_parseTokens_le {l : List Token} (h : Closed ts) (hl : l ∈ lines ts) :
    (parseTokens o l).program.toList.length ≤ 1 ∧ (parseTokens o l).faults.length ≤ 1 := by
  obtain ⟨ws, e, hws, he, rfl⟩ := h.exists_of_mem_lines hl
  exact length_parseTokens_line_le hws he

/-- **A fault does not reach beyond its line.**  A list of tokens with no end of
text in front of its last token yields what its lines yield, each line read by a
reader of its own, and no line yields more than one statement or more than one
fault. -/
theorem parseTokens_eq_flatMap_lines (o : Options) {ts : List Token}
    (h : ∀ t ∈ ts.dropLast, t.kind ≠ .textEnd) :
    (parseTokens o ts).program.toList =
        (lines (close ts)).flatMap (fun l => (parseTokens o l).program.toList) ∧
      (parseTokens o ts).faults = (lines (close ts)).flatMap (fun l => (parseTokens o l).faults) ∧
      ∀ l ∈ lines (close ts),
        (parseTokens o l).program.toList.length ≤ 1 ∧ (parseTokens o l).faults.length ≤ 1 := by
  rcases List.eq_nil_or_concat' ts with rfl | ⟨us, t, rfl⟩
  · have hend : (Feed.ofList []).head.kind = .textEnd := rfl
    rw [toList_parseTokens, faults_parseTokens, Feed.readLines_of_textEnd hend]
    simp [close, lines]
  · rw [List.dropLast_concat] at h
    have hclosed := Token.closed_close (t := t) h
    obtain ⟨hstatements, hfaults⟩ := parseTokens_close o (us ++ [t])
    refine ⟨?_, ?_, ?_⟩
    · rw [← hstatements, hclosed.toList_parseTokens]
    · rw [← hfaults, hclosed.faults_parseTokens]
    · intro l hl
      obtain ⟨ws, e, hws, he, rfl⟩ := hclosed.exists_of_mem_lines hl
      exact length_parseTokens_line_le hws he

/-- A word too many, an illegal token and no end of text. -/
theorem parseTokens_eq_flatMap_lines_faulty :
    let ts : List Token :=
      [.bare (.keyword .fromImage) "FROM".toList, .bare .word ['a'], .bare .word ['b'],
        .bare .lineFeed ['\n'], .bare (.keyword .run) "RUN".toList, .bare .illegal ['\\'],
        .bare .lineFeed ['\n'], .bare (.keyword .arg) "ARG".toList, .bare .word ['c']]
    (∀ t ∈ ts.dropLast, t.kind ≠ .textEnd) ∧
      (parseTokens .strict ts).program.toList =
          [.fromImage [] ⟨['a'], ['a'], .zero⟩ none .zero,
            .arg ⟨['c'], ['c'], .zero⟩ ['c'] none none .zero] ∧
      (parseTokens .strict ts).faults.map Fault.cause =
          [.unexpectedToken .lineFeed .word, .illegalToken ['\\']] ∧
      (parseTokens .strict ts).program.toList =
          (lines (close ts)).flatMap (fun l => (parseTokens .strict l).program.toList) ∧
        (parseTokens .strict ts).faults =
            (lines (close ts)).flatMap (fun l => (parseTokens .strict l).faults) ∧
          ∀ l ∈ lines (close ts),
            (parseTokens .strict l).program.toList.length ≤ 1 ∧
              (parseTokens .strict l).faults.length ≤ 1 :=
  ⟨by decide, by decide +kernel, by decide +kernel,
    parseTokens_eq_flatMap_lines .strict (by decide)⟩

end Parse

end Recipe
