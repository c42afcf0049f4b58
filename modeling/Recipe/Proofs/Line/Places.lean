import Mathlib.Data.List.Forall2
import Recipe.Proofs.Line.Basic
import Recipe.Proofs.Written.Normal

/-!
# Reading without places

What tokens are read as does not depend on where they stand.  A feed whose
places are forgotten (`Feed.forget`) is read like the feed itself, the end that
it makes up behind its last token included (`Feed.readLines_forget`).  So two
lists of tokens with the same kinds and literals are read as the same program,
but for places, and with the same faults (`parseTokens_eq_of_forall₂`).
-/

namespace Recipe

namespace Feed

/-- The feed without its places. -/
def forget (f : Feed) : Feed := ⟨f.tokens.map Move.forget.token, Move.forget.token f.last⟩

theorem head_forget (f : Feed) : f.forget.head = Move.forget.token f.head := by
  obtain ⟨_ | ⟨t, ts⟩, u⟩ := f <;> rfl

theorem tail_forget (f : Feed) : f.forget.tail = f.tail.forget := by
  simp only [tail, forget, List.map_tail]

theorem skipLine_forget (f : Feed) : f.forget.skipLine = f.skipLine.forget := by
  simp only [skipLine, forget, List.dropWhile_map]
  rfl

/-- The line of a feed without its places. -/
theorem sameLine_forget (f : Feed) : SameLine .forget f f.forget where
  line := by
    simp only [line, forget, List.takeWhile_map]
    rfl
  stop := by rw [skipLine_forget, head_forget]

theorem ofList_forget (ts : List Token) :
    ofList (ts.map Move.forget.token) = (ofList ts).forget := by
  have hlast : (ts.map Move.forget.token).getLastD (Move.forget.token (.bare .textEnd [])) =
      Move.forget.token (ts.getLastD (.bare .textEnd [])) := by
    rw [List.getLastD_map]
  rw [ofList, ofList, forget, ← hlast]
  rfl

/-- **Line by line without places**: what is read is what is read with them,
without them. -/
theorem readLines_forget (o : Options) (f : Feed) :
    readLines o f.forget =
      ((readLines o f).1.map Move.forget.statement, (readLines o f).2.1.map Move.forget.fault,
        (readLines o f).2.2.forget) := by
  induction f using lines_induction with
  | stop f h =>
    have h' : f.forget.head.kind = .textEnd := by rw [head_forget, Move.kind_token, h]
    rw [readLines_of_textEnd h, readLines_of_textEnd h']
    rfl
  | line f h ih =>
    have h' : f.forget.head.kind ≠ .textEnd := by rwa [head_forget, Move.kind_token]
    obtain ⟨hstatement, hfault⟩ := f.sameLine_forget.readLine o
    rw [readLines_of_ne_textEnd h, readLines_of_ne_textEnd h', skipLine_forget, tail_forget, ih,
      hstatement, hfault, List.map_append, List.map_append, Option.toList_map, Option.toList_map]

end Feed

/-- Tokens without their places are read as the tokens are, but for places. -/
theorem parseTokens_map_forget (o : Options) (ts : List Token) :
    (parseTokens o (ts.map Move.forget.token)).program =
        Move.forget.program (parseTokens o ts).program ∧
      (parseTokens o (ts.map Move.forget.token)).faults =
        (parseTokens o ts).faults.map Move.forget.fault := by
  have hread := Feed.readLines_forget o (.ofList ts)
  rw [← Feed.ofList_forget] at hread
  constructor
  · rw [program_parseTokens, toList_parseTokens, hread,
      Program.ofStatements_map (Move.forget.isComment_statement), program_parseTokens o ts,
      toList_parseTokens]
    rfl
  · rw [faults_parseTokens, hread, faults_parseTokens]

/-- Tokens that agree but for places are read alike. -/
theorem parseTokens_congr {ts us : List Token}
    (h : ts.map Move.forget.token = us.map Move.forget.token) (o : Options) :
    Move.forget.program (parseTokens o ts).program =
        Move.forget.program (parseTokens o us).program ∧
      (parseTokens o ts).faults.map Fault.cause = (parseTokens o us).faults.map Fault.cause := by
  obtain ⟨hprogram, hfaults⟩ := parseTokens_map_forget o ts
  obtain ⟨hprogram', hfaults'⟩ := parseTokens_map_forget o us
  have hcause (fs : List Fault) :
      (fs.map Move.forget.fault).map Fault.cause = fs.map Fault.cause := by
    rw [List.map_map]
    rfl
  constructor
  · rw [← hprogram, ← hprogram', h]
  · rw [← hcause, ← hcause (parseTokens o us).faults, ← hfaults, ← hfaults', h]

/-- **Places do not change meaning.**  Two lists of tokens that agree, one by
one, in their kinds and literals are read as the same program, but for places,
and with faults of the same causes in the same order, wherever the tokens
stand. -/
theorem parseTokens_eq_of_forall₂ {ts us : List Token}
    (h : List.Forall₂ (fun t u => t.kind = u.kind ∧ t.literal = u.literal) ts us)
    (o : Options) :
    Move.forget.program (parseTokens o ts).program =
        Move.forget.program (parseTokens o us).program ∧
      (parseTokens o ts).faults.map Fault.cause = (parseTokens o us).faults.map Fault.cause := by
  apply parseTokens_congr
  induction h with
  | nil => rfl
  | @cons t u ts us htu _ ih =>
    have hforget : Move.forget.token t = Move.forget.token u := by
      rw [Move.token, Move.token, htu.1, htu.2]
      rfl
    rw [List.map_cons, List.map_cons, hforget, ih]

/-- A stage with a word too many and a copy without a target, in places out of
order and nowhere, and neither with an end of text. -/
theorem parseTokens_eq_of_forall₂_nowhere :
    let ts : List Token :=
      [⟨.keyword .fromImage, "FROM".toList, ⟨7, 3⟩, ⟨90, 40⟩⟩, ⟨.word, ['a'], ⟨2, 1⟩, ⟨5, 6⟩⟩,
        ⟨.word, ['b'], ⟨1, 9⟩, ⟨80, 81⟩⟩, ⟨.lineFeed, ['\n'], ⟨4, 4⟩, ⟨3, 2⟩⟩,
        ⟨.keyword .copy, "COPY".toList, ⟨1, 1⟩, ⟨0, 4⟩⟩, ⟨.word, ['c'], ⟨8, 8⟩, ⟨70, 71⟩⟩]
    let us := ts.map fun t => Token.bare t.kind t.literal
    List.Forall₂ (fun t u => t.kind = u.kind ∧ t.literal = u.literal) ts us ∧
      (parseTokens .strict ts).faults ≠ (parseTokens .strict us).faults ∧
      Move.forget.program (parseTokens .strict ts).program =
          Move.forget.program (parseTokens .strict us).program ∧
        (parseTokens .strict ts).faults.map Fault.cause =
          (parseTokens .strict us).faults.map Fault.cause := by
  intro ts us
  have h : List.Forall₂ (fun t u => t.kind = u.kind ∧ t.literal = u.literal) ts us := by
    simp [us, ts, Token.bare]
  exact ⟨h, by decide +kernel, parseTokens_eq_of_forall₂ h .strict⟩

end Recipe
