import Mathlib.Data.List.Induction
import Mathlib.Data.List.TakeWhile
import Recipe.Program.Basic

/-!
# Recording statements

A program is recorded statement by statement.  A comment is a directive as long
as nothing but comments has been recorded; `Program.record` is the step that
decides this, and `Program.isSplit_ofStatements` says what any number of steps
come to: the directives are the longest run of comments that the statements
start with.
-/

namespace Recipe.Program

/-- The program has the statements `ss`, and its directives are the comments in
front of all others. -/
structure IsSplit (p : Program) (ss : List Statement) : Prop where
  toList_eq : p.toList = ss
  directives : ∀ s ∈ p.directives, s.isComment
  statements : ∀ s ∈ p.statements.head?, ¬ s.isComment

variable {p : Program} {ss : List Statement}

/-- There is one way to split statements. -/
theorem IsSplit.eq (h : p.IsSplit ss) :
    p = ⟨ss.takeWhile Statement.isComment, ss.dropWhile Statement.isComment⟩ := by
  obtain ⟨rfl, hdirectives, hstatements⟩ := h
  obtain ⟨directives, statements⟩ := p
  have htake : statements.takeWhile Statement.isComment = [] := by
    cases statements with
    | nil => rfl
    | cons s statements => exact List.takeWhile_cons_of_neg (hstatements s rfl)
  have hdrop : statements.dropWhile Statement.isComment = statements := by
    cases statements with
    | nil => rfl
    | cons s statements => exact List.dropWhile_cons_of_neg (hstatements s rfl)
  rw [toList, List.takeWhile_append_of_pos hdirectives, List.dropWhile_append_of_pos hdirectives,
    htake, hdrop, List.append_nil]

/-- One more statement is recorded. -/
theorem IsSplit.record (h : p.IsSplit ss) (s : Statement) : (p.record s).IsSplit (ss ++ [s]) := by
  obtain ⟨rfl, hdirectives, hstatements⟩ := h
  obtain ⟨directives, statements⟩ := p
  by_cases hs : s.isComment
  · cases statements with
    | nil =>
      rw [Program.record, if_pos (by simp [hs])]
      refine ⟨by simp [toList], ?_, hstatements⟩
      exact List.forall_mem_append.mpr ⟨hdirectives, by simpa using hs⟩
    | cons t statements =>
      rw [Program.record, if_neg (by simp)]
      exact ⟨by simp [toList], hdirectives, hstatements⟩
  · rw [Program.record, if_neg (by simp [hs])]
    refine ⟨by simp [toList], hdirectives, ?_⟩
    cases statements with
    | nil => simpa using hs
    | cons t statements => exact hstatements

/-- **Directives come first**: however many statements have been recorded, those
before the first one that is no comment are the directives. -/
theorem isSplit_ofStatements (ss : List Statement) : (ofStatements ss).IsSplit ss := by
  induction ss using List.reverseRecOn with
  | nil => exact ⟨rfl, by simp [ofStatements, empty], by simp [ofStatements, empty]⟩
  | append_singleton ss s ih =>
    rw [ofStatements, List.foldl_append]
    exact ih.record s

theorem isSplit_iff : p.IsSplit ss ↔ p = ofStatements ss := by
  constructor
  · exact fun h => h.eq.trans (isSplit_ofStatements ss).eq.symm
  · rintro rfl
    exact isSplit_ofStatements ss

@[simp] theorem toList_ofStatements (ss : List Statement) : (ofStatements ss).toList = ss :=
  (isSplit_ofStatements ss).toList_eq

/-- The directives are the longest run of comments that the statements start
with. -/
theorem directives_ofStatements (ss : List Statement) :
    (ofStatements ss).directives = ss.takeWhile Statement.isComment :=
  congrArg directives (isSplit_ofStatements ss).eq

/-- What keeps comments comments keeps directives directives. -/
theorem ofStatements_map {g : Statement → Statement} (hg : ∀ s, (g s).isComment = s.isComment)
    (ss : List Statement) :
    ofStatements (ss.map g) =
      ⟨(ofStatements ss).directives.map g, (ofStatements ss).statements.map g⟩ := by
  have hcomp : Statement.isComment ∘ g = Statement.isComment := funext hg
  rw [(isSplit_ofStatements (ss.map g)).eq, (isSplit_ofStatements ss).eq, List.takeWhile_map,
    List.dropWhile_map, hcomp]

end Recipe.Program
