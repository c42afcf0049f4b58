import Recipe.Proofs.Line.Kept
import Recipe.Proofs.Written.Normal

/-!
# Reading what was written

A program is written as a recipe again.  If the program keeps no line as a list
of words, this recipe is read back as the normal form of the program, without a
fault.  Where it keeps such lines, the recipe is read back exactly if no closing
bracket and no comma is written directly behind a bare word.

## How the proof goes

Every statement of a program is formed by tokens of its source
(`exists_forms_of_mem_parse`), so it is written as tokens that form its normal
form (`Forms.exists_spelled`).  What is read of a written statement follows from
these tokens and from how they are glued, whatever is written behind it
(`Statement.Spelled.parse_append`).  From there on the proof is an induction
over the statements (`Program.parse_ofStatements_iff`).  All this happens
without places, since the written recipe is read like its tokens are wherever
they stand (`Token.Closed.parseTokens_map`).
-/

namespace Recipe

open Token (scan glue InLine)

/-! ## The statements of a program -/

section Source

variable {o : Options} {source : Text} {s : Statement}

/-- Every statement of a program is written as some tokens. -/
theorem exists_spelled_of_mem_parse (hs : s ∈ (parse o source).program.toList) :
    ∃ h ts, s.Spelled h ts := by
  obtain ⟨as, h, ts, bs, hsource, -, -, hforms, -⟩ := exists_forms_of_mem_parse hs
  apply hforms.exists_spelled
  intro t ht
  have hmem : t ∈ Token.ofSource source :=
    hsource ▸ List.mem_append_right as (List.mem_append_left bs ht)
  exact Token.admits_of_mem_ofSource hmem

end Source

/-! ## One written statement -/

/-- The end of a line that is written. -/
def Token.feed : Token := .bare .lineFeed ['\n']

theorem Token.closed_scan (t : Text) : Closed (scan t) :=
  map_forget_ofSource t ▸ (Closed.ofSource t).map .forget

/-- Without places, a text is read from the tokens it scans as. -/
theorem parseTokens_scan (o : Options) (t : Text) :
    (parseTokens o (scan t)).program.toList =
        (parse o t).program.toList.map Move.forget.statement ∧
      (parseTokens o (scan t)).faults = (parse o t).faults.map Move.forget.fault := by
  rw [← Token.map_forget_ofSource]
  exact (Token.Closed.ofSource t).parseTokens_map .forget

theorem parseTokens_scan_nil (o : Options) :
    (parseTokens o (scan [])).program.toList = [] ∧ (parseTokens o (scan [])).faults = [] := by
  rw [Token.scan_nil]
  exact parseTokens_blank rfl

namespace Statement.Spelled

variable {s : Statement} {h : Token} {ts : List Token}

theorem isPiece (hs : s.Spelled h ts) : ∀ t ∈ glue h ts, t.IsPiece := by
  have hpiece : ∀ t ∈ h :: ts, t.IsPiece := by
    intro t ht
    exact ⟨(hs.regular t ht).legal, (hs.regular t ht).inLine⟩
  obtain ⟨hh, hts⟩ := List.forall_mem_cons.mp hpiece
  exact Token.isPiece_of_mem_glue hh hts

/-- The tokens that the written statement is read as, with the end of their
line. -/
def line (h : Token) (ts : List Token) : List Token :=
  (glue h ts ++ [Token.feed]).map Move.forget.token

/-- What is written behind a statement is read for itself. -/
theorem parse_append (hs : s.Spelled h ts) (o : Options) (r : Text) :
    (parseTokens o (scan (s.written ++ '\n' :: r))).program.toList =
        (parseTokens o (line h ts)).program.toList ++
          (parseTokens o (scan r)).program.toList ∧
      (parseTokens o (scan (s.written ++ '\n' :: r))).faults =
        (parseTokens o (line h ts)).faults ++ (parseTokens o (scan r)).faults := by
  have hinLine : InLine ((glue h ts).map Move.forget.token) :=
    InLine.map (fun t ht => (hs.isPiece t ht).2) _
  rw [hs.written, Token.scan_spell hs.regular (Token.stops_lineFeed r), Token.scan_cons_lineFeed,
    line, List.map_append]
  exact (Token.closed_scan r).parseTokens_line_append o hinLine rfl

/-- The line of a written statement is read like the tokens it holds. -/
theorem parse_line (hs : s.Spelled h ts) :
    (parseTokens .strict (line h ts)).program.toList =
        ((Feed.readLine .strict ⟨glue h ts ++ [Token.feed], Token.feed⟩).statement?.map
          Move.forget.statement).toList ∧
      (parseTokens .strict (line h ts)).faults =
        ((Feed.readLine .strict ⟨glue h ts ++ [Token.feed], Token.feed⟩).fault?.map
          Move.forget.fault).toList := by
  have hinLine : InLine (glue h ts) := fun t ht => (hs.isPiece t ht).2
  have hne : glue h ts ≠ [] := by
    obtain ⟨u, us, hglue, -⟩ := Token.exists_glue_eq_cons h ts
    rw [hglue]
    exact List.cons_ne_nil u us
  have hmap := Token.parseTokens_map_line (o := .strict) (e := Token.feed) hinLine rfl .forget
  have hline := parseTokens_line (o := .strict) (e := Token.feed) hne hinLine rfl
  rw [Option.toList_map, Option.toList_map, ← hline.1, ← hline.2]
  exact hmap

/-- A statement whose words stay apart is read back. -/
theorem parse_line_of_unglued (hs : s.Spelled h ts) (hunglued : s.Unglued) :
    (parseTokens .strict (line h ts)).program.toList = [Move.forget.statement s.normal] ∧
      (parseTokens .strict (line h ts)).faults = [] := by
  obtain ⟨s', hforms, hforget⟩ := hs.forms
  have hread : Feed.readLine .strict ⟨h :: (ts ++ [Token.feed]), Token.feed⟩ =
      ⟨some s', none, ⟨[Token.feed], Token.feed⟩⟩ := hforms.readLine rfl
  rw [hs.parse_line.1, hs.parse_line.2, Token.glue_of_isChain (hs.apart.mp hunglued),
    List.cons_append, hread, ← hforget]
  exact ⟨rfl, rfl⟩

/-- A statement with glued words is not read back: its line is a fault, or it is
read as fewer words. -/
theorem parse_line_of_glued (hs : s.Spelled h ts) (hglued : ¬ s.Unglued) :
    (parseTokens .strict (line h ts)).faults ≠ [] ∨
      ∃ s', (parseTokens .strict (line h ts)).program.toList = [s'] ∧
        s' ≠ Move.forget.statement s.normal := by
  obtain ⟨s', hforms, hforget⟩ := hs.forms
  obtain ⟨k, ws, span, rfl⟩ : ∃ k ws span, s' = .other k ws span := by
    cases s with
    | other =>
      cases s' with
      | other k ws span => exact ⟨k, ws, span, rfl⟩
      | _ => cases hforget
    | _ => exact absurd trivial hglued
  obtain ⟨u, us, hglue, hu⟩ := Token.exists_glue_eq_cons h ts
  rw [hs.parse_line.1, hs.parse_line.2, hglue, List.cons_append]
  rcases hu with rfl | hu
  · right
    have hpiece := hs.isPiece
    rw [hglue] at hpiece
    obtain ⟨span', hforms'⟩ := hforms.exists_other (List.forall_mem_cons.mp hpiece).2
    rw [hforms'.readLine rfl]
    refine ⟨_, rfl, ?_⟩
    intro hread
    -- As many words would have been read as were written.
    obtain ⟨-, hwords, -⟩ := Statement.other.inj (hread.trans hforget.symm)
    have hlength : us.length = ts.length := by
      rw [← hforms'.length_words, ← hforms.length_words]
      simpa using congrArg List.length hwords
    refine hglued (hs.apart.mpr (Token.isChain_of_length_glue ?_))
    rw [hglue, List.length_cons, hlength]
  · left
    rw [Feed.fault?_readLine_of_word hu]
    exact List.cons_ne_nil _ _

end Statement.Spelled

/-! ## Written programs -/

namespace Program

theorem written_ofStatements_cons (s : Statement) (ss : List Statement) :
    (ofStatements (s :: ss)).written = s.written ++ '\n' :: (ofStatements ss).written := by
  rw [written, written, toList_ofStatements, toList_ofStatements, List.flatMap_cons,
    List.append_assoc]
  rfl

/-- **Statement by statement**: what is written is read back exactly if the
words of every statement stay apart. -/
theorem parse_ofStatements_iff {ss : List Statement} (hss : ∀ s ∈ ss, ∃ h ts, s.Spelled h ts) :
    ((parseTokens .strict (scan (ofStatements ss).written)).faults = [] ∧
        (parseTokens .strict (scan (ofStatements ss).written)).program.toList =
          ss.map fun s => Move.forget.statement s.normal) ↔
      ∀ s ∈ ss, s.Unglued := by
  induction ss with
  | nil =>
    have hwritten : (ofStatements []).written = [] := rfl
    rw [hwritten, (parseTokens_scan_nil .strict).1, (parseTokens_scan_nil .strict).2]
    simp
  | cons s ss ih =>
    obtain ⟨⟨h, ts, hs⟩, hss⟩ := List.forall_mem_cons.mp hss
    obtain ⟨hstatements, hfaults⟩ := hs.parse_append .strict (ofStatements ss).written
    rw [written_ofStatements_cons, hstatements, hfaults, List.forall_mem_cons, List.map_cons,
      ← ih hss]
    by_cases hunglued : s.Unglued
    · obtain ⟨hread, hfault⟩ := hs.parse_line_of_unglued hunglued
      rw [hread, hfault]
      simp [hunglued]
    · refine iff_of_false ?_ fun h => hunglued h.1
      rintro ⟨hfault, hread⟩
      rcases hs.parse_line_of_glued hunglued with hne | ⟨s', hs', hne⟩
      · exact hne (List.append_eq_nil_iff.mp hfault).1
      · rw [hs'] at hread
        exact hne (List.cons.inj hread).1

theorem toList_move (m : Move) (p : Program) : (m.program p).toList = p.toList.map m.statement :=
  List.map_append.symm

theorem toList_normal (p : Program) : p.normal.toList = p.toList.map Statement.normal :=
  List.map_append.symm

/-- Programs that are made of their statements agree but for places if their
statements do. -/
theorem forget_eq_normal_iff {p q : Program} (hp : p = ofStatements p.toList)
    (hq : q = ofStatements q.toList) :
    Move.forget.program q = Move.forget.program p.normal ↔
      q.toList.map Move.forget.statement =
        p.toList.map fun s => Move.forget.statement s.normal := by
  constructor
  · intro h
    have htoList := congrArg toList h
    rwa [toList_move, toList_move, toList_normal, List.map_map] at htoList
  · intro h
    have hq' := ofStatements_map Move.forget.isComment_statement q.toList
    have hp' := ofStatements_map (g := fun s => Move.forget.statement s.normal)
      (fun s => by simp) p.toList
    rw [← h, hq', ← hq, ← hp] at hp'
    obtain ⟨hdirectives, hstatements⟩ := Program.mk.inj hp'
    rw [Move.program, Move.program, normal, hdirectives, hstatements, List.map_map, List.map_map]
    rfl

/-- The statements of a program that was read are read back from its written
form exactly if the words of each stay apart. -/
theorem toList_written_iff (o : Options) (source : Text) :
    ((parse .strict (parse o source).program.written).faults = [] ∧
        (parse .strict (parse o source).program.written).program.toList.map Move.forget.statement =
          (parse o source).program.toList.map fun s => Move.forget.statement s.normal) ↔
      ∀ s ∈ (parse o source).program.toList, s.Unglued := by
  have hwritten : (ofStatements (parse o source).program.toList).written =
      (parse o source).program.written := by
    rw [parse, ← program_parseTokens]
  have hmap := parseTokens_scan .strict (parse o source).program.written
  rw [← parse_ofStatements_iff fun s hs => exists_spelled_of_mem_parse hs, hwritten, hmap.1, hmap.2,
    List.map_eq_nil_iff]

/-- **Statements with a grammar are read back.**  Whatever a program was read
from, if it keeps no line as a list of words, then its written form has no
faults, is read as the normal form of the program, and is what is written of the
program that was read from it. -/
theorem parse_written {o : Options} {source : Text}
    (h : ∀ s ∈ (parse o source).program.toList, ¬ s.isOther) :
    let p := (parse o source).program
    let q := parse .strict p.written
    q.faults = [] ∧ Move.forget.program q.program = Move.forget.program p.normal ∧
      q.program.written = p.written := by
  intro p q
  obtain ⟨hfaults, htoList⟩ := (toList_written_iff o source).mpr fun s hs =>
    Statement.unglued_of_not_isOther (h s hs)
  have hprogram : Move.forget.program q.program = Move.forget.program p.normal :=
    (forget_eq_normal_iff (program_parseTokens _ _) (program_parseTokens _ _)).mpr htoList
  refine ⟨hfaults, hprogram, ?_⟩
  rw [← written_move .forget q.program, hprogram, written_move, written_normal]

/-- A recipe with a fault in it, and with two words that are written as one. -/
theorem parse_written_arg :
    let source := "# a b\nARG --x \\ y\nRUN c\nCOPY --d=e f --g\nFROM h AS i".toList
    let p := (parse .lenient source).program
    let q := parse .strict p.written
    (∀ s ∈ p.toList, ¬ s.isOther) ∧
      p.written = "# a\nARG --x=\\ y\nCOPY --d=e f --g\nFROM h AS i\n".toList ∧
      q.program.statements.head? =
        some (.arg ⟨"--x=\\ y".toList, "--x= y".toList, ⟨8, 15⟩⟩ "--x".toList (some " y".toList)
          none ⟨4, 15⟩) ∧
      q.faults = [] ∧ Move.forget.program q.program = Move.forget.program p.normal ∧
        q.program.written = p.written :=
  ⟨by decide +kernel, by decide +kernel, by decide +kernel, parse_written (by decide +kernel)⟩

/-- **What is written is read back exactly if nothing is glued.**  Whatever a
program was read from, its written form has no faults and is read as the normal
form of the program if and only if, in every line that is kept as a list of
words, no closing bracket and no comma stands directly behind a bare word. -/
theorem parse_written_iff_unglued (o : Options) (source : Text) :
    let p := (parse o source).program
    let q := parse .strict p.written
    (q.faults = [] ∧ Move.forget.program q.program = Move.forget.program p.normal) ↔
      ∀ s ∈ p.toList, s.Unglued := by
  intro p q
  have hprogram : Move.forget.program q.program = Move.forget.program p.normal ↔ _ :=
    forget_eq_normal_iff (program_parseTokens _ _) (program_parseTokens _ _)
  rw [hprogram]
  exact toList_written_iff o source

/-- A closing bracket that a blank keeps apart from the word in front of it is
read as a part of that word where the line has been written. -/
theorem parse_written_bracket :
    let p := parse .strict "RUN a ]".toList
    let q := parse .strict p.program.written
    p.faults = [] ∧ Move.forget.program q.program ≠ Move.forget.program p.program.normal := by
  decide +kernel

end Program

end Recipe
