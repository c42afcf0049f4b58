import Recipe.Proofs.Line.Kept
import Recipe.Proofs.Line.Options
import Recipe.Proofs.Statement.Window

/-!
# Every line is read to its own end

A reader that looks through a `Window` gives up at different tokens of a line:
where a token is missing, at a word that should be a flag, at an illegal word,
or behind a statement with something left over.  From there it goes on to the
end of the line.

Whatever way it takes, it comes to stand at the first end of line from where it
has started, and has reported at most one fault (`Window.readLine_of_at`).  So
it reads what `Feed.readLine` reads, line after line (`Window.parse_ofTokens`).
There are three kinds of lines it reads nothing in without a word
(`Feed.readLine_eq_none_iff`): blank ones, and those which the options say to
drop, for their head or for their flags.
-/

namespace Recipe

/-! ## Lines that are dropped silently -/

namespace Token

/-- Flags, if any, and then a word that starts like one and has no `=`. -/
def FlagsBreakOff (ts : List Token) : Prop :=
  ∃ fs t us, ts = fs ++ t :: us ∧ (∀ u ∈ fs, u.IsFlag) ∧ t.IsStrayFlag

theorem not_flagsBreakOff_nil : ¬ FlagsBreakOff [] := by
  rintro ⟨fs, t, us, hnil, -⟩
  simp at hnil

theorem flagsBreakOff_cons {t : Token} {ts : List Token} :
    FlagsBreakOff (t :: ts) ↔ t.IsStrayFlag ∨ t.IsFlag ∧ FlagsBreakOff ts := by
  constructor
  · rintro ⟨_ | ⟨u, fs⟩, s, us, hts, hfs, hs⟩
    · obtain ⟨rfl, rfl⟩ := List.cons.inj hts
      exact .inl hs
    · obtain ⟨rfl, rfl⟩ := List.cons.inj hts
      obtain ⟨ht, hfs⟩ := List.forall_mem_cons.mp hfs
      exact .inr ⟨ht, fs, s, us, rfl, hfs, hs⟩
  · rintro (ht | ⟨ht, fs, s, us, rfl, hfs, hs⟩)
    · exact ⟨[], t, ts, rfl, by simp, ht⟩
    · exact ⟨t :: fs, s, us, rfl, List.forall_mem_cons.mpr ⟨ht, hfs⟩, hs⟩

end Token

namespace Grammar

open Token (FlagsBreakOff)

variable {α β : Type} {o : Options} {f : Feed} {h : Token}

/-- A grammar is silent if its first part is, and if the second one never is. -/
theorem bind_eq_error_none_iff {g : Grammar α} {k : α → Grammar β} (hk : ∀ a, Reports (k a)) :
    (g >>= k) f = .error none ↔ g f = .error none := by
  cases hg : g f with
  | error e => rw [bind_of_error hg]; simp
  | ok p =>
    rw [bind_of_ok hg]
    simpa using hk p.1 p.2

theorem flags_eq_error_none_iff :
    (expect .word >>= flags o) f = .error none ↔
      o.reportMalformedFlags = false ∧ FlagsBreakOff f.tokens := by
  obtain ⟨ts, u⟩ := f
  induction ts with
  | nil =>
    have hword : expect .word ⟨[], u⟩ = .error (some (.unexpectedToken .word u.ending)) := rfl
    rw [bind_of_error hword]
    simp [Token.not_flagsBreakOff_nil]
  | cons t ts ih =>
    rw [Token.flagsBreakOff_cons]
    by_cases ht : t.kind = .word
    · rw [bind_of_ok (expect_cons ht)]
      rcases Token.isFlag_or_isStrayFlag_or_isSource ht with hflag | hstray | hsource
      · obtain ⟨flag, hflag'⟩ := hflag.exists_flag?
        rw [flags_of_flag?_eq_some hflag', ← bind_assoc,
          bind_eq_error_none_iff fun _ => Reports.pure _, ih]
        simp [hflag, hflag.not_isStrayFlag]
      · obtain ⟨hbody, hnone⟩ := hstray.flag?
        rw [flags_of_flag?_eq_none hbody hnone]
        simp [hstray]
      · rw [flags_of_body?_isNone (Token.isSource_iff.mp hsource).2]
        have hflag : ¬ t.IsFlag := fun hflag => hflag.not_isSource hsource
        have hstray : ¬ t.IsStrayFlag := fun hstray => hstray.not_isSource hsource
        simpa [hflag, hstray] using Reports.pure ([], t) ⟨ts, u⟩
    · have hflag : ¬ t.IsFlag := fun hflag => ht hflag.1
      have hstray : ¬ t.IsStrayFlag := fun hstray => ht hstray.1
      rw [bind_of_error (expect_cons_of_ne ht)]
      simp [hflag, hstray]

theorem fromImage_eq_error_none_iff :
    fromImage o h f = .error none ↔
      o.reportMalformedFlags = false ∧ FlagsBreakOff f.tokens := by
  rw [← flags_eq_error_none_iff, fromImage, ← bind_assoc]
  refine bind_eq_error_none_iff fun p => (Reports.accept? _).bind fun as? => ?_
  cases as? with
  | none => exact .pure _
  | some _ => exact (Reports.expect .word).bind fun _ => .pure _

theorem copy_eq_error_none_iff :
    copy o h f = .error none ↔ o.reportMalformedFlags = false ∧ FlagsBreakOff f.tokens := by
  rw [← flags_eq_error_none_iff, copy, ← bind_assoc]
  exact bind_eq_error_none_iff fun p => (Reports.expect .word).bind fun _ => .pure _

/-- A line is refused silently where its flags break off, if that is not
reported, and nowhere else. -/
theorem statement_eq_error_none_iff :
    statement o h f = .error none ↔
      o.reportMalformedFlags = false ∧
        (h.kind = .keyword .fromImage ∨ h.kind = .keyword .copy) ∧ FlagsBreakOff f.tokens := by
  -- Grammars without flags are those of a strict reader, who is never silent.
  have hstrict : Reports (statement .strict h) := Reports.statement rfl h
  rcases statement_cases o h with ⟨hh, heq⟩ | ⟨hh, heq⟩ | ⟨hh, heq⟩ | ⟨hh, heq⟩ |
    ⟨k, hh, hother, heq⟩ | ⟨hhash, hkeyword, heq⟩
  · rw [statement_of_hash hh] at hstrict
    simpa [heq, hh] using hstrict f
  · rw [heq, fromImage_eq_error_none_iff]
    simp [hh]
  · rw [statement_of_arg hh] at hstrict
    simpa [heq, hh] using hstrict f
  · rw [heq, copy_eq_error_none_iff]
    simp [hh]
  · rw [statement_of_other hh hother] at hstrict
    obtain ⟨hfrom, -, hcopy⟩ := (Token.isOther_iff hh).mp hother
    simpa [heq, hh, hfrom, hcopy] using hstrict f
  · simp [heq, hkeyword]

end Grammar

/-- Nothing is read in a line, and nothing is reported, if it is blank, if it
has no grammar and is not to be kept, or if its flags break off and that is not
reported. -/
theorem Feed.readLine_eq_none_iff {o : Options} {f : Feed} :
    (f.readLine o).statement? = none ∧ (f.readLine o).fault? = none ↔
      f.head.kind = .lineFeed ∨ (f.head.IsOther ∧ o.keepOther = false) ∨
        o.reportMalformedFlags = false ∧
          (f.head.kind = .keyword .fromImage ∨ f.head.kind = .keyword .copy) ∧
            Token.FlagsBreakOff f.tail.tokens := by
  by_cases hfeed : f.head.kind = .lineFeed
  · simp [readLine, hfeed]
  by_cases hdrops : o.drops f.head.kind
  · have hread : f.readLine o = ⟨none, none, f.skipLine⟩ := by
      rw [readLine, if_neg hfeed, if_pos hdrops]
    simp [hread, Options.drops_iff.mp hdrops]
  rw [readLine_eq_reading hfeed hdrops, ← Grammar.statement_eq_error_none_iff,
    ← Options.drops_iff]
  cases Grammar.statement o f.head f.tail with
  | error refusal => simp [reading, hfeed, hdrops]
  | ok p =>
    have hstatement : (f.reading (.ok p)).statement? = some p.1 := by
      rw [reading]
      split <;> rfl
    simp [hstatement, hfeed, hdrops]

namespace Window

variable {o : Options} {w : Window} {f : Feed}

/-- Moves on to the end of the line, and reports what stands in front of it. -/
def endLine (w : Window) : Window :=
  if w.next.kind.isLineEnd then w.advance
  else (w.report (some (.unexpectedToken .lineFeed w.next))).skipLine

/-- Reads the line the window stands in. -/
def readLine (o : Options) (w : Window) : Option Statement × Window :=
  if w.current.kind = .lineFeed then (none, w)
  else if o.drops w.current.kind then (none, w.skipLine)
  else
    match Walk.statement o w.current w with
    | (none, w) => (none, w.skipLine)
    | (some s, w) => (some s, w.endLine)

/-- Behind a statement a reader comes to the end of the line, and has reported
the token behind the statement if that is not the end. -/
theorem endLine_eq (h : ¬ w.current.kind.isLineEnd) :
    w.endLine =
      w.skipLine.report
        (if w.next.kind.isLineEnd then none else some (.unexpectedToken .lineFeed w.next)) := by
  unfold endLine
  split
  · rename_i hnext
    rw [report_none, skipLine_of_not_isLineEnd h, skipLine_of_isLineEnd hnext]
  · rw [skipLine_report]

/-- Where a line has ended, there is nothing to go on over. -/
theorem readLine_of_isLineEnd (h : w.At f) (hend : w.current.kind.isLineEnd) :
    w.readLine o = ((f.readLine o).statement?, w.report (f.readLine o).fault?) := by
  have hkind : w.current.kind = .lineFeed ∨ w.current.kind = .textEnd := by
    simpa [Kind.isLineEnd] using hend
  rcases hkind with hkind | hkind
  · simp [readLine, Feed.readLine, ← h.current, hkind]
  · have hwalk : Walk.statement o w.current w =
        (none, w.report (some (.unexpectedStart w.current))) := by
      rw [Walk.statement, hkind]
    have hgrammar := Grammar.statement_of_textEnd (o := o) hkind f.tail
    simp [readLine, Feed.readLine, ← h.current, hkind, Options.drops, hwalk, hgrammar,
      skipLine_report, skipLine_of_isLineEnd hend]

/-- **Every line is read to its own end**, and yields what it yields at a
feed. -/
theorem readLine_of_at (h : w.At f) :
    w.readLine o = ((f.readLine o).statement?, w.skipLine.report (f.readLine o).fault?) := by
  by_cases hend : w.current.kind.isLineEnd
  · rw [skipLine_of_isLineEnd hend]
    exact readLine_of_isLineEnd h hend
  have hcurrent : w.current = f.head := h.current
  have hfeed := Kind.ne_lineFeed hend
  by_cases hdrops : o.drops w.current.kind
  · rw [readLine, if_neg hfeed, if_pos hdrops, Feed.readLine, ← hcurrent, if_neg hfeed,
      if_pos hdrops, report_none]
  have hmirrors := Walk.Mirrors.statement o w.current h.advance
  rw [readLine, if_neg hfeed, if_neg hdrops, Feed.readLine_eq_reading (hcurrent ▸ hfeed)
    (hcurrent ▸ hdrops), ← hcurrent]
  generalize Walk.statement o w.current w = p at hmirrors ⊢
  generalize Grammar.statement o w.current f.tail = x at hmirrors ⊢
  -- Wherever in the line the walk has come to, the end of the line is ahead.
  cases hmirrors with
  | @ok s w' rest hreach hrest =>
    obtain ⟨hend', hskip⟩ := hreach.skipLine_eq hend
    have hnext : w'.next = rest.head := hrest.current
    show (some s, w'.endLine) = _
    rw [endLine_eq hend', hskip, hnext, Feed.reading]
    split <;> rfl
  | @error refusal w' hreach =>
    obtain ⟨-, hskip⟩ := hreach.skipLine_eq hend
    show (none, (w'.report refusal).skipLine) = _
    rw [skipLine_report, hskip, Feed.reading]

/-! ## Line after line -/

theorem remaining_readLine_lt (o : Options) (h : w.current.kind ≠ .textEnd) :
    (w.readLine o).2.advance.remaining < w.remaining := by
  rw [readLine_of_at w.at_feed, advance_report]
  show w.skipLine.advance.remaining < w.remaining
  by_cases hend : w.current.kind.isLineEnd
  · rw [skipLine_of_isLineEnd hend]
    exact remaining_advance_lt h
  · rw [skipLine_of_not_isLineEnd hend]
    calc
      w.advance.skipLine.advance.remaining ≤ w.advance.skipLine.remaining := remaining_advance_le _
      _ ≤ w.advance.remaining := remaining_skipLine_le _
      _ < w.remaining := remaining_advance_lt h

/-- Reads lines up to an end of text. -/
def readLines (o : Options) (w : Window) : List Statement × Window :=
  if h : w.current.kind = .textEnd then ([], w)
  else
    have := remaining_readLine_lt o h
    let line := w.readLine o
    let (statements, w) := readLines o line.2.advance
    (line.1.toList ++ statements, w)
termination_by w.remaining

/-- Reads a program, and gives what has been reported with it. -/
def parse (o : Options) (w : Window) : Parsed :=
  let (statements, w) := w.readLines o
  ⟨.ofStatements statements, w.faults⟩

theorem readLines_of_at (h : w.At f) :
    (w.readLines o).1 = (f.readLines o).1 ∧
      (w.readLines o).2.faults = w.faults ++ (f.readLines o).2.1 := by
  induction f using Feed.lines_induction generalizing w with
  | stop f hend =>
    rw [readLines, dif_pos (by rw [h.current, hend]), Feed.readLines_of_textEnd hend]
    exact ⟨rfl, (List.append_nil _).symm⟩
  | line f hend ih =>
    obtain ⟨hstatements, hfaults⟩ := ih (h.skipLine.report (f.readLine o).fault?).advance
    rw [readLines, dif_neg (by rwa [h.current]), Feed.readLines_of_ne_textEnd hend]
    have hreported : ((w.skipLine.report (f.readLine o).fault?).advance).faults =
        w.faults ++ (f.readLine o).fault?.toList := by
      rw [advance_report, report, faults_advance, faults_skipLine]
    simp only [readLine_of_at h, hstatements, hfaults, hreported, List.append_assoc, and_self]

/-- A reader with a window gives what is read of the tokens. -/
theorem parse_ofTokens (o : Options) (ts : List Token) :
    (ofTokens ts).parse o = parseTokens o ts := by
  obtain ⟨hstatements, hfaults⟩ := readLines_of_at (o := o) (at_ofTokens ts)
  show Parsed.mk (.ofStatements _) _ = _
  rw [hstatements, hfaults]
  rfl

/-- **Every line is read to its own end.**  A reader with a window reads what is
read of the tokens.  Wherever it stands, and whatever its options are, it reads
a line and comes to the first end of line from there, with what stands behind
that end still ahead and with at most one fault more.  It has neither a
statement nor a further fault only if the line is blank, or has no grammar and
is not to be kept, or if its flags break off and that is not to be reported. -/
theorem readLine_stops (o : Options) :
    (∀ ts, (ofTokens ts).parse o = parseTokens o ts) ∧
      ∀ w : Window, ∃ n,
        (∀ m < n, ¬ (advance^[m] w).current.kind.isLineEnd) ∧
          (advance^[n] w).current.kind.isLineEnd ∧
          w.readLine o =
            ((w.feed.readLine o).statement?,
              (advance^[n] w).report (w.feed.readLine o).fault?) ∧
          ((w.readLine o).1 = none ∧ (w.readLine o).2.faults = w.faults ↔
            w.current.kind = .lineFeed ∨ (w.current.IsOther ∧ o.keepOther = false) ∨
              o.reportMalformedFlags = false ∧
                (w.current.kind = .keyword .fromImage ∨ w.current.kind = .keyword .copy) ∧
                  Token.FlagsBreakOff (w.next :: w.behind)) := by
  refine ⟨parse_ofTokens o, fun w => ?_⟩
  obtain ⟨n, hskip, hend, hline⟩ := w.exists_skipLine_eq
  have hread := readLine_of_at (o := o) w.at_feed
  have hfaults : (w.readLine o).2.faults = w.faults ++ (w.feed.readLine o).fault?.toList := by
    rw [hread, report, faults_skipLine]
  refine ⟨n, hline, hskip ▸ hend, hskip ▸ hread, ?_⟩
  rw [hfaults, hread, List.append_right_eq_self, Option.toList_eq_nil_iff]
  exact Feed.readLine_eq_none_iff

end Window

end Recipe
