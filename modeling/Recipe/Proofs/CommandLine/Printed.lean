import Recipe.CommandLine.Outcome
import Recipe.Proofs.Text.Utf8
import Recipe.Proofs.Written.Trimmed

/-!
# Printed recipes

The command that prints a recipe takes the blanks off its end, and not only the
last line feed.  Under lenient options, where every statement has a grammar,
what has been printed is read as the recipe that was given, unless the last line
ends in a blank that belongs to a word (`CommandLine.printed_iff_endsWhole`): a
space may be escaped by a backslash, and blanks that are not ASCII are part of
words anyway.  A printed recipe that is read as the one that was given is also
printed as it is.
-/

namespace Recipe

open Token (scan)

namespace Program

/-- The last statement is not written with a blank at its end. -/
def EndsWhole (p : Program) : Prop :=
  ∀ s ∈ p.toList.getLast?, ∀ c ∈ s.written.getLast?, ¬ Text.isBlank c

theorem endsWhole_iff {p : Program} :
    p.EndsWhole ↔ ∀ s ∈ p.toList.getLast?, Text.trimEnd s.written = s.written :=
  forall₂_congr fun _ _ => Text.trimEnd_eq_self_iff.symm

-- Not by a search through all characters.
instance : DecidablePred EndsWhole := fun _ => decidable_of_iff _ endsWhole_iff.symm

end Program

/-- Under lenient options every statement has a grammar. -/
theorem not_isOther_of_mem_parse_lenient {source : Text} {s : Statement}
    (hs : s ∈ (parse .lenient source).program.toList) : ¬ s.isOther := by
  rw [parse, (parseTokens_filter .lenient _).1] at hs
  obtain ⟨-, hkeeps⟩ := List.mem_filter.mp hs
  cases s with
  | other => cases hkeeps
  | _ => exact Bool.false_ne_true

/-- **When a trimmed recipe is the same recipe**: exactly if nothing of its last
statement is lost. -/
theorem Program.parse_trimmed_iff_endsWhole {source : Text} {p : Program}
    (hp : p = (parse .lenient source).program) :
    ((parse .lenient p.trimmed).faults = [] ∧
        Move.forget.program (parse .lenient p.trimmed).program = Move.forget.program p.normal) ↔
      p.EndsWhole := by
  have hlist : p = ofStatements p.toList := hp ▸ program_parseTokens _ _
  have hss : ∀ s ∈ p.toList, (∃ h ts, s.Spelled h ts) ∧ ¬ s.isOther := by
    intro s hs
    rw [hp] at hs
    exact ⟨exists_spelled_of_mem_parse hs, not_isOther_of_mem_parse_lenient hs⟩
  obtain ⟨hstatements, hfaults⟩ := parseTokens_scan .lenient p.trimmed
  have hread := parse_trimmed_iff hss .lenient
  rw [← hlist, hstatements, hfaults, List.map_eq_nil_iff] at hread
  have hq : (parse .lenient p.trimmed).program =
      ofStatements (parse .lenient p.trimmed).program.toList := program_parseTokens _ _
  rw [forget_eq_normal_iff hlist hq]
  exact hread

namespace CommandLine

variable {o : Options} {source : Text}

/-- A command that ends well has printed a program without faults. -/
theorem Task.run_print_of_exitCode (h : ((Task.print o .text).run source).exitCode = 0) :
    (Task.print o .text).run source = .printed (parse o source).program.trimmed := by
  rw [Task.run] at h ⊢
  split at h
  · rename_i hok
    exact if_pos hok
  · cases h

theorem Task.run_print_of_faults (h : (parse o source).faults = []) :
    (Task.print o .text).run source = .printed (parse o source).program.trimmed := by
  have hok : (parse o source).isOk := by rw [Parsed.isOk, h]; rfl
  exact if_pos hok

/-- **When what is printed is the same recipe.**  If a lenient command has
printed the recipe in a file, then what it printed is read without a fault as
the same program, but for places and for `ARG` with two words, if and only if
what is written of the last statement does not end in a blank; and in this case
it is printed as it is. -/
theorem printed_iff_endsWhole {bytes : List UInt8}
    (h : ((Task.print .lenient .text).runFile (.ok bytes)).exitCode = 0) :
    let outcome := (Task.print .lenient .text).runFile (.ok bytes)
    let p := (parse .lenient (Text.ofBytes bytes)).program
    let q := parse .lenient outcome.output
    ((q.faults = [] ∧ Move.forget.program q.program = Move.forget.program p.normal) ↔
        p.EndsWhole) ∧
      (p.EndsWhole →
        (Task.print .lenient .text).runFile (.ok outcome.output.bytes) = outcome) := by
  intro outcome p q
  have houtcome : outcome = .printed p.trimmed := Task.run_print_of_exitCode h
  have hq : q = parse .lenient p.trimmed := congrArg (fun o => parse .lenient o.output) houtcome
  have hread := Program.parse_trimmed_iff_endsWhole (p := p) rfl
  rw [← hq] at hread
  refine ⟨hread, fun hwhole => ?_⟩
  obtain ⟨hfaults, hprogram⟩ := hread.mpr hwhole
  have hwritten : q.program.written = p.written := by
    rw [← Program.written_move .forget q.program, hprogram, Program.written_move,
      Program.written_normal]
  have htrimmed : q.program.trimmed = p.trimmed := by
    rw [Program.trimmed, Program.trimmed, hwritten]
  rw [Task.runFile, Text.ofBytes_bytes, Task.run_print_of_faults hfaults, htrimmed, houtcome]

/-- A recipe with a line that is dropped, with blanks at the ends of its words,
and with two words that are written as one. -/
theorem printed_iff_endsWhole_arg :
    let bytes := Text.bytes "# a\\ \nRUN \\ \nCOPY --b=\\ c d\u00A0 e\\ \nARG f \\ é \t".toList
    let outcome := (Task.print .lenient .text).runFile (.ok bytes)
    let p := (parse .lenient (Text.ofBytes bytes)).program
    let q := parse .lenient outcome.output
    outcome.exitCode = 0 ∧ p.EndsWhole ∧
      ((q.faults = [] ∧ Move.forget.program q.program = Move.forget.program p.normal) ↔
          p.EndsWhole) ∧
        (p.EndsWhole →
          (Task.print .lenient .text).runFile (.ok outcome.output.bytes) = outcome) := by
  intro bytes outcome p q
  have hexit : outcome.exitCode = 0 := by decide +kernel
  have hwhole : p.EndsWhole := by decide +kernel
  exact ⟨hexit, hwhole, printed_iff_endsWhole hexit⟩

/-- The last word ends in an escaped space.  This is taken off, and the
backslash in front of it joins the last line with nothing. -/
theorem printed_escaped_space :
    let bytes := Text.bytes "COPY a b\\ ".toList
    let outcome := (Task.print .lenient .text).runFile (.ok bytes)
    let p := (parse .lenient (Text.ofBytes bytes)).program
    let q := parse .lenient outcome.output
    outcome = .printed "COPY a b\\\n".toList ∧ q.faults = [] ∧
      Move.forget.program q.program ≠ Move.forget.program p.normal ∧
      (Task.print .lenient .text).runFile (.ok outcome.output.bytes) =
        .printed "COPY a b\n".toList := by
  decide +kernel

end CommandLine

end Recipe
