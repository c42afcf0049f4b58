import Recipe.Proofs.Line.Options
import Recipe.Proofs.Text.Trim
import Recipe.Proofs.Token.Room
import Recipe.Proofs.Written.RoundTrip

/-!
# Reading what was written and trimmed

The blanks at the end of a written recipe are those of its last line, and what
is left of this line is read as the statement again only if nothing was taken
off it (`Statement.eq_of_isPrefix`): the words of the statement do not fit into
less text.  So a recipe whose statements have a grammar is read back from its
trimmed form exactly if the last statement does not end in a blank
(`Program.parse_trimmed_iff`).
-/

namespace Recipe

open Token (scan room)

variable {o : Options} {s : Statement}

/-! ## Statements with a grammar -/

theorem Options.keeps_of_not_isOther (h : ¬ s.isOther) : o.keeps s := by
  cases s with
  | other => exact absurd rfl h
  | _ => rfl

/-- The options keep and report a part of what a strict reading yields. -/
theorem parseTokens_filter (o : Options) (ts : List Token) :
    (parseTokens o ts).program.toList = (parseTokens .strict ts).program.toList.filter o.keeps ∧
      (parseTokens o ts).faults = (parseTokens .strict ts).faults.filter o.reports := by
  simp only [toList_parseTokens, faults_parseTokens]
  rw [Feed.readLines_eq_filter]
  exact ⟨rfl, rfl⟩

/-! ## Written statements in front of others -/

/-- A statement with a grammar is read back under any options, and what is
written behind it is read for itself. -/
theorem Statement.Spelled.parse_written_append {h : Token} {ts : List Token} (hs : s.Spelled h ts)
    (hother : ¬ s.isOther) (o : Options) (r : Text) :
    (parseTokens o (scan (s.written ++ '\n' :: r))).program.toList =
        Move.forget.statement s.normal :: (parseTokens o (scan r)).program.toList ∧
      (parseTokens o (scan (s.written ++ '\n' :: r))).faults =
        (parseTokens o (scan r)).faults := by
  obtain ⟨hstatements, hfaults⟩ := hs.parse_append o r
  obtain ⟨hread, hnone⟩ := hs.parse_line_of_unglued (Statement.unglued_of_not_isOther hother)
  obtain ⟨hstatements', hfaults'⟩ := parseTokens_filter o (Statement.Spelled.line h ts)
  have hkeeps : o.keeps (Move.forget.statement s.normal) :=
    Options.keeps_of_not_isOther (by simpa using hother)
  rw [hstatements, hfaults, hstatements', hfaults', hread, hnone,
    List.filter_cons_of_pos hkeeps]
  exact ⟨rfl, rfl⟩

/-- What is written of some statements is read back, with anything behind it. -/
theorem Program.parse_written_append {ss : List Statement}
    (hss : ∀ s ∈ ss, (∃ h ts, s.Spelled h ts) ∧ ¬ s.isOther) (o : Options) (r : Text) :
    (parseTokens o (scan ((ofStatements ss).written ++ r))).program.toList =
        (ss.map fun s => Move.forget.statement s.normal) ++
          (parseTokens o (scan r)).program.toList ∧
      (parseTokens o (scan ((ofStatements ss).written ++ r))).faults =
        (parseTokens o (scan r)).faults := by
  induction ss with
  | nil => exact ⟨rfl, rfl⟩
  | cons s ss ih =>
    obtain ⟨⟨⟨h, ts, hs⟩, hother⟩, hss⟩ := List.forall_mem_cons.mp hss
    obtain ⟨hstatements, hfaults⟩ :=
      hs.parse_written_append hother o ((ofStatements ss).written ++ r)
    obtain ⟨ih, ih'⟩ := ih hss
    rw [written_ofStatements_cons, List.append_assoc, List.cons_append, hstatements, hfaults, ih,
      ih']
    exact ⟨rfl, rfl⟩

/-! ## A line that has been cut short -/

/-- The head of a statement is a bare word, or that of a comment. -/
theorem Forms.isBare_or {h : Token} {ts : List Token} (hforms : Forms (h :: ts) s) :
    h.kind.isBare ∨ h.kind = .hash ∧ ts ≠ [] := by
  cases hforms with
  | comment hh _ => exact .inr ⟨hh, List.cons_ne_nil _ _⟩
  | fromImage hh | stage hh | argEquals hh | argPair hh | argName hh | copy hh | other hh =>
    rw [hh]
    exact .inl rfl

/-- A comment without its end has less room: the blank behind its mark goes with
no word. -/
theorem Token.room_scan_hash_le {y u : Text} (hy : y <+: '#' :: ' ' :: u) :
    room (scan (y ++ ['\n'])) ≤ y.length - 1 := by
  rcases List.prefix_cons_iff.mp hy with rfl | ⟨y', rfl, hy'⟩
  · exact Nat.le_of_lt_succ ((Token.room_scan_le (Token.endsLine_concat [])).2
      (Token.stops_lineFeed []) (List.cons_ne_nil _ _))
  · have hscan : scan ('#' :: (y' ++ ['\n'])) = .bare .hash ['#'] :: scan (y' ++ ['\n']) :=
      Token.scan_of_split rfl (List.cons_ne_nil _ _) rfl
    have hstops : Lexeme.Stops (y' ++ ['\n']) := by
      rcases List.prefix_cons_iff.mp hy' with rfl | ⟨y'', rfl, -⟩
      · exact Token.stops_lineFeed []
      · exact Token.stops_space _
    have hlt := (Token.room_scan_le (Token.endsLine_concat y')).2 hstops (by simp)
    rw [List.length_append, List.length_singleton] at hlt
    rw [List.cons_append, hscan, Token.room_cons_of_not_isBare (by decide), List.length_cons]
    omega

/-- **A statement does not fit into less than its written form**: if it is read
from what is left of this, nothing has been taken off. -/
theorem Statement.eq_of_isPrefix {y : Text} (hy : y <+: s.written) (hnormal : s.normal = s)
    (hother : ¬ s.isOther) (hs : s ∈ (parseTokens o (scan (y ++ ['\n']))).program.toList) :
    y = s.written := by
  obtain ⟨as, h, ts, bs, hscan, -, -, hforms, -⟩ := (Token.closed_scan _).exists_forms_of_mem hs
  have hroom : room (h :: ts) ≤ room (scan (y ++ ['\n'])) := by
    rw [hscan, Token.room_append, Token.room_append]
    omega
  have hadmits : ∀ t ∈ h :: ts, t.kind.Admits t.literal := fun t ht =>
    Token.admits_of_mem_scan (hscan ▸ List.mem_append_right as (List.mem_append_left bs ht))
  have hwritten := hforms.written_eq hother hnormal hadmits
  have hlength := Token.length_flatMap_space (hforms.isBare hother).2.2
  refine hy.eq_of_length (Nat.le_antisymm hy.length_le ?_)
  rcases hforms.isBare_or with hbare | ⟨hhash, hne⟩
  · have hle := (Token.room_scan_le (Token.endsLine_concat y)).1
    rw [Token.room_cons_of_isBare hbare] at hroom
    rw [hwritten, List.length_append, hlength]
    rw [List.length_append, List.length_singleton] at hle
    omega
  · obtain ⟨t, ts, rfl⟩ := List.exists_cons_of_ne_nil hne
    have hliteral : h.literal = ['#'] := by
      have hh := hadmits h List.mem_cons_self
      rwa [hhash] at hh
    rw [hliteral, List.flatMap_cons] at hwritten
    have hle := Token.room_scan_hash_le (hwritten ▸ hy)
    rw [Token.room_cons_of_not_isBare (by rw [hhash]; decide)] at hroom
    rw [List.flatMap_cons] at hlength
    rw [hwritten, List.length_append, hlength, List.length_singleton]
    have hpos : 0 < room (t :: ts) := by
      rw [← hlength]
      exact Nat.succ_pos _
    omega

/-! ## A program without the blanks at its end -/

/-- A written statement starts with its head, which is not blank. -/
theorem Statement.exists_written_eq_cons (s : Statement) :
    ∃ c t, s.written = c :: t ∧ ¬ Text.isBlank c := by
  cases s with
  | comment => exact ⟨'#', _, rfl, by decide⟩
  | fromImage flags source stage? span => cases stage? <;> exact ⟨'F', _, rfl, by decide⟩
  | arg word name value? valueWord? span => cases valueWord? <;> exact ⟨'A', _, rfl, by decide⟩
  | copy => exact ⟨'C', _, rfl, by decide⟩
  | other k => cases k <;> exact ⟨_, _, rfl, by decide⟩

namespace Program

variable {ss : List Statement}

/-- What is written of a program, without the blanks it ends with but with the
last line feed. -/
def trimmed (p : Program) : Text := Text.trimEnd p.written ++ ['\n']

theorem written_ofStatements_concat (ss : List Statement) (s : Statement) :
    (ofStatements (ss ++ [s])).written = (ofStatements ss).written ++ s.written ++ ['\n'] := by
  rw [written, written, toList_ofStatements, toList_ofStatements, List.flatMap_append,
    List.flatMap_singleton, List.append_assoc]

/-- Only the last line loses something. -/
theorem trimmed_ofStatements_concat (ss : List Statement) (s : Statement) :
    (ofStatements (ss ++ [s])).trimmed =
      (ofStatements ss).written ++ (Text.trimEnd s.written ++ ['\n']) := by
  have hne : Text.trimEnd s.written ≠ [] := by
    obtain ⟨c, t, hwritten, hc⟩ := s.exists_written_eq_cons
    rw [hwritten]
    exact Text.trimEnd_cons_ne_nil hc t
  rw [trimmed, written_ofStatements_concat, Text.trimEnd_concat (by decide),
    Text.trimEnd_append hne, List.append_assoc]

/-- A blank line is read as nothing. -/
theorem parseTokens_scan_lineFeed (o : Options) (r : Text) :
    (parseTokens o (scan ('\n' :: r))).program.toList =
        (parseTokens o (scan r)).program.toList ∧
      (parseTokens o (scan ('\n' :: r))).faults = (parseTokens o (scan r)).faults := by
  have hline :=
    (Token.closed_scan r).parseTokens_line_append o Token.inLine_nil (e := Token.feed) rfl
  have hblank := parseTokens_blank (o := o) (e := Token.feed) rfl
  rw [List.nil_append, List.nil_append, hblank.1, hblank.2] at hline
  rw [Token.scan_cons_lineFeed]
  exact hline

/-- **When the last line is whole.**  Statements with a grammar that are written
and trimmed are read back exactly if what is written of the last one does not
end in a blank. -/
theorem parse_trimmed_iff (hss : ∀ s ∈ ss, (∃ h ts, s.Spelled h ts) ∧ ¬ s.isOther)
    (o : Options) :
    ((parseTokens o (scan (ofStatements ss).trimmed)).faults = [] ∧
        (parseTokens o (scan (ofStatements ss).trimmed)).program.toList =
          ss.map fun s => Move.forget.statement s.normal) ↔
      ∀ s ∈ ss.getLast?, ∀ c ∈ s.written.getLast?, ¬ Text.isBlank c := by
  rcases List.eq_nil_or_concat' ss with rfl | ⟨init, s, rfl⟩
  · have htrimmed : (ofStatements []).trimmed = ['\n'] := rfl
    rw [htrimmed, (parseTokens_scan_lineFeed o []).1, (parseTokens_scan_lineFeed o []).2,
      (parseTokens_scan_nil o).1, (parseTokens_scan_nil o).2]
    exact iff_of_true ⟨rfl, rfl⟩ (by simp)
  · obtain ⟨hinit, hs⟩ := List.forall_mem_append.mp hss
    obtain ⟨⟨h, ts, hspelled⟩, hother⟩ := hs s (List.mem_singleton_self s)
    obtain ⟨hstatements, hfaults⟩ :=
      parse_written_append hinit o (Text.trimEnd s.written ++ ['\n'])
    rw [trimmed_ofStatements_concat, hstatements, hfaults, List.map_append, List.map_singleton,
      List.append_cancel_left_eq]
    simp only [List.getLast?_concat, Option.mem_some_iff, forall_eq']
    rw [← Text.trimEnd_eq_self_iff]
    constructor
    · rintro ⟨-, hread⟩
      have hwritten : (Move.forget.statement s.normal).written = s.written := by
        rw [Move.written_statement, Statement.written_normal]
      have hmem : Move.forget.statement s.normal ∈
          (parseTokens o (scan (Text.trimEnd s.written ++ ['\n']))).program.toList := by
        rw [hread]
        exact List.mem_singleton_self _
      rw [← hwritten] at hmem ⊢
      exact Statement.eq_of_isPrefix (Text.trimEnd_isPrefix _) (Statement.normal_move_normal _ s)
        (by simpa using hother) hmem
    · intro hself
      obtain ⟨hread, hnone⟩ := hspelled.parse_written_append hother o []
      rw [hself, hread, hnone, (parseTokens_scan_nil o).1, (parseTokens_scan_nil o).2]
      exact ⟨rfl, rfl⟩

end Program

end Recipe
