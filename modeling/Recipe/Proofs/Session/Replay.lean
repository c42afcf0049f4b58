import Recipe.Proofs.Line.Stacked
import Recipe.Proofs.Session.Chunk
import Recipe.Proofs.Text.Parts
import Recipe.Proofs.Text.Trim

/-!
# Sessions and recipes

A recipe may be given to a session line by line, each chunk that comes back
being read on its own, or it may be read at once.  Both are the same, but for
the places (`Session.parse_eq_stacked_readings`), as long as the session and the
reader agree on which lines go on (`Session.Tidy`).

## How the proof goes

One step: the session keeps a tidy line, or gives it with all lines that it
holds as one chunk (`Session.Holding.push_of_tidy`).  Such a chunk closes its
quotes and does not join what is below it, since each line in it but the last
joins the next one (`Session.settled_fed_append`).  A run: the chunks, each with
its line feed, are the lines, each with its line feed
(`Session.Holding.exists_readings`).  What is read of texts that stand one below
the other has been said of texts as such (`parse_intercalate`).
-/

namespace Recipe.Session

open Lexeme (JoinsNext)

variable {s s' : Session} {group lines : List Text} {line c : Text} {o : Options}

/-- Lines that are no commands, close their quotes, and join the next line if
they go on for the session. -/
structure Tidy (line : Text) : Prop where
  not_exit : Text.trim line ≠ "exit".toList
  not_tokens : Text.trim line ≠ ":tokens".toList
  closed : ∀ t ∈ Token.ofSource line, ¬ t.IsUnclosed
  joinsNext : goesOn line → JoinsNext line

theorem tidy_iff :
    Tidy line ↔ (Text.trim line ≠ "exit".toList ∧ Text.trim line ≠ ":tokens".toList) ∧
      (∀ t ∈ Token.ofSource line, ¬ t.IsUnclosed) ∧ (goesOn line → JoinsNext line) := by
  constructor
  · rintro ⟨hexit, htokens, hclosed, hjoin⟩
    exact ⟨⟨hexit, htokens⟩, hclosed, hjoin⟩
  · rintro ⟨⟨hexit, htokens⟩, hclosed, hjoin⟩
    exact ⟨hexit, htokens, hclosed, hjoin⟩

instance : DecidablePred Tidy := fun _ => decidable_of_iff _ tidy_iff.symm

/-- A line that joins the next one goes on for the session. -/
theorem goesOn_of_joinsNext (h : JoinsNext line) : goesOn line := by
  have hkept (u : Text) : Text.trimEnd (u ++ ['\\']) = u ++ ['\\'] := by
    rw [Text.trimEnd_eq_self_iff]
    rintro c hc
    obtain rfl : '\\' = c := by simpa using hc
    decide
  rcases h with ⟨u, rfl⟩ | ⟨u, rfl⟩
  · rw [goesOn, hkept]
    simp
  · have hreturn : u ++ ['\\', '\r'] = u ++ ['\\'] ++ ['\r'] := by simp
    rw [goesOn, hreturn, Text.trimEnd_concat (by decide), hkept]
    simp

/-- A line that does not go on may have anything below it. -/
theorem Tidy.settled (h : Tidy line) (hline : ¬ goesOn line) : Settled line where
  closed := h.closed
  not_joinsNext := mt goesOn_of_joinsNext hline

/-- Joined lines are the lines, each with its line feed, but for the last line
feed. -/
theorem intercalate_eq_dropLast_fed (lines : List Text) :
    List.intercalate ['\n'] lines = (fed lines).dropLast := by
  by_cases h : lines = []
  · subst h
    rfl
  · rw [fed, ← Text.intercalate_append_singleton '\n' h, List.dropLast_concat]

end Recipe.Session
