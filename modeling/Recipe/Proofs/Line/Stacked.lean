import Recipe.Proofs.Lexeme.Joining
import Recipe.Proofs.Line.Joined

/-!
# Recipes that stand one below the other

Any number of texts are joined by line feeds.  If each of them closes its quotes
and does not join the next line, all that is read of the whole is read of the
parts, each moved to where its part stands (`parse_intercalate`).  Only the
faults at the ends of the parts know of the line feeds behind them.

A text that joins the next line is no such part, but it is the start of one:
with what it joins it closes its quotes if both do
(`Token.not_isUnclosed_joined`).
-/

namespace Recipe

/-- Whether what stands below the text is read for itself: whether the text
closes its quotes and does not join the next line. -/
structure Settled (c : Text) : Prop where
  closed : ∀ t ∈ Token.ofSource c, ¬ t.IsUnclosed
  not_joinsNext : ¬ Lexeme.JoinsNext c

/-- Where nothing stands, nothing is read. -/
theorem parse_nil (o : Options) : (parse o []).program.toList = [] ∧ (parse o []).faults = [] := by
  have hsource : Token.ofSource [] = [(Lexeme.verbatim .textEnd []).toToken .start] := by
    rw [Token.ofSource_eq_placed, Lexeme.sequence_of_splitGap_eq_nil rfl]
    rfl
  rw [parse, hsource]
  exact parseTokens_blank rfl

/-- Behind nothing, what is read of a source stays where it is: its offsets are
told in numbers of 32 bits already. -/
theorem map_behind_nil (o : Options) (source : Text) :
    (parse o source).program.toList.map (Move.behind []).statement =
        (parse o source).program.toList ∧
      (parse o source).faults.map (Move.behind []).fault = (parse o source).faults := by
  have htokens : (Token.ofSource source).map (Move.behind []).token = Token.ofSource source := by
    rw [Token.ofSource_eq_placed]
    exact (Token.placed_down .start 0 0 _).symm
  obtain ⟨hstatements, hfaults⟩ :=
    (Token.Closed.ofSource source).parseTokens_map (o := o) (Move.behind [])
  rw [htokens] at hstatements hfaults
  exact ⟨hstatements.symm, hfaults.symm⟩

/-- The statements of texts that stand one below the other behind the text
`before`, each moved behind what stands in front of its text. -/
def stackedStatements (before : Text) : List (Text × Parsed) → List Statement
  | [] => []
  | (c, p) :: rs =>
    p.program.toList.map (Move.behind before).statement ++
      stackedStatements (before ++ c ++ ['\n']) rs

/-- The faults of texts that stand one below the other behind the text `before`,
each moved behind what stands in front of its text.  A fault that has found the
end of its text finds a line feed there if another text stands below. -/
def stackedFaults (before : Text) : List (Text × Parsed) → List Fault
  | [] => []
  | [(_, p)] => p.faults.map (Move.behind before).fault
  | (c, p) :: r :: rs =>
    (p.faults.map (Fault.withEnd (Token.lineFeedBehind c))).map (Move.behind before).fault ++
      stackedFaults (before ++ c ++ ['\n']) (r :: rs)

/-- What is read of texts that stand one below the other, behind any text. -/
theorem parse_intercalate_behind (o : Options) (before : Text) {cs : List Text}
    (hcs : ∀ c ∈ cs, Settled c) :
    (parse o (List.intercalate ['\n'] cs)).program.toList.map (Move.behind before).statement =
        stackedStatements before (cs.map fun c => (c, parse o c)) ∧
      (parse o (List.intercalate ['\n'] cs)).faults.map (Move.behind before).fault =
        stackedFaults before (cs.map fun c => (c, parse o c)) := by
  induction cs generalizing before with
  | nil =>
    rw [List.intercalate_nil, (parse_nil o).1, (parse_nil o).2]
    exact ⟨rfl, rfl⟩
  | cons c cs ih =>
    obtain ⟨hc, hcs⟩ := List.forall_mem_cons.mp hcs
    obtain _ | ⟨d, cs⟩ := cs
    · rw [List.intercalate_singleton]
      exact ⟨(List.append_nil _).symm, rfl⟩
    · obtain ⟨hstatements, hfaults⟩ :=
        parse_joined o hc.closed hc.not_joinsNext (List.intercalate ['\n'] (d :: cs))
      obtain ⟨hstatements', hfaults'⟩ := ih (before ++ c ++ ['\n']) hcs
      rw [← Move.behind_comp_below, Move.statement_comp, ← List.map_map] at hstatements'
      rw [← Move.behind_comp_below, Move.fault_comp, ← List.map_map] at hfaults'
      rw [List.intercalate_cons_cons, List.append_assoc, List.singleton_append, hstatements,
        hfaults, List.map_append, List.map_append, hstatements', hfaults']
      exact ⟨rfl, rfl⟩

/-- **Texts that stand one below the other are read one below the other.** -/
theorem parse_intercalate (o : Options) {cs : List Text} (hcs : ∀ c ∈ cs, Settled c) :
    (parse o (List.intercalate ['\n'] cs)).program.toList =
        stackedStatements [] (cs.map fun c => (c, parse o c)) ∧
      (parse o (List.intercalate ['\n'] cs)).faults =
        stackedFaults [] (cs.map fun c => (c, parse o c)) := by
  have hbehind := parse_intercalate_behind o [] hcs
  rwa [(map_behind_nil o _).1, (map_behind_nil o _).2] at hbehind

/-! ## Parts without faults -/

section Clean

variable {before : Text} {rs : List (Text × Parsed)}

theorem stackedFaults_eq_nil (hrs : ∀ r ∈ rs, r.2.faults = []) : stackedFaults before rs = [] := by
  induction rs generalizing before with
  | nil => rfl
  | cons r rs ih =>
    obtain ⟨hr, hrs⟩ := List.forall_mem_cons.mp hrs
    cases rs with
    | nil => rw [stackedFaults, hr, List.map_nil]
    | cons r' rs => rw [stackedFaults, hr, ih hrs, List.map_nil, List.map_nil, List.append_nil]

/-- A last text that says nothing adds no statements. -/
theorem stackedStatements_concat {r : Text × Parsed} (hr : r.2.program.toList = []) :
    stackedStatements before (rs ++ [r]) = stackedStatements before rs := by
  induction rs generalizing before with
  | nil => simp [stackedStatements, hr]
  | cons r' rs ih => rw [List.cons_append, stackedStatements, ih, stackedStatements]

end Clean

end Recipe
