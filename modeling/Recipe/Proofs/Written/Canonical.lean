import Recipe.Proofs.Line.Stacked
import Recipe.Proofs.Text.Parts
import Recipe.Proofs.Written.Alone
import Recipe.Proofs.Written.Trimmed

/-!
# Canonical recipes

A recipe is canonical if every line of it has the words of a statement with a
grammar, with one blank between any two of them, and none of its lines is empty.
Such a recipe is what is written of its program, but for the last line feed, and
the program is read from it again with the same places (`parse_canonical`).

## How the proof goes

The words of a canonical line form a statement that is written as this line
(`Canonical.exists_forms`), so the line is read as this statement where it
stands alone (`Canonical.parse_line`), and may have other lines below it
(`Statement.Spelled.settled`).  What is read of lines that stand one below the
other has been said of texts as such (`parse_intercalate`); a line feed behind
them is an empty line below them.
-/

namespace Recipe

/-! ## Canonical lines -/

namespace Text

variable {w : Text}

/-- Whether the text by itself is read as one word, and this word takes all of
it. -/
structure IsLoneWord (w : Text) : Prop where
  kinds : (Token.ofSource w).map Token.kind = [.word, .textEnd]
  literal : (Token.ofSource w).head?.map Token.literal = some w

theorem isLoneWord_iff :
    IsLoneWord w ↔ (Token.ofSource w).map Token.kind = [.word, .textEnd] ∧
      (Token.ofSource w).head?.map Token.literal = some w :=
  ⟨fun h => ⟨h.kinds, h.literal⟩, fun h => ⟨h.1, h.2⟩⟩

instance : DecidablePred IsLoneWord := fun _ => decidable_of_iff _ isLoneWord_iff.symm

/-- Whether the text is two hyphens and a text with `=`. -/
def IsFlag (w : Text) : Prop := ∃ body : Text, w = '-' :: '-' :: body ∧ '=' ∈ body

theorem IsLoneWord.admits (h : IsLoneWord w) : Kind.word.Admits w := by
  obtain ⟨hkinds, hliteral⟩ := h
  obtain ⟨t, us, hsource, ht, -⟩ := List.map_eq_cons_iff.mp hkinds
  have hmem : t ∈ Token.ofSource w := hsource ▸ List.mem_cons_self
  rw [hsource] at hliteral
  rw [← ht, ← Option.some.inj hliteral]
  exact Token.admits_of_mem_ofSource hmem

end Text

/-- The words of a line that is written as it is read. -/
inductive Canonical : List Text → Prop where
  | comment {w : Text} : w.IsLoneWord → Canonical ["#".toList, w]
  | arg {w : Text} : w.IsLoneWord → Canonical ["ARG".toList, w]
  | fromImage {flags : List Text} {source : Text} : (∀ f ∈ flags, f.IsLoneWord ∧ f.IsFlag) →
      source.IsLoneWord → ¬ "--".toList <+: source →
      Canonical ("FROM".toList :: (flags ++ [source]))
  | stage {flags : List Text} {source stage : Text} : (∀ f ∈ flags, f.IsLoneWord ∧ f.IsFlag) →
      source.IsLoneWord → ¬ "--".toList <+: source → stage.IsLoneWord →
      Canonical ("FROM".toList :: (flags ++ [source, "AS".toList, stage]))
  | copy {flags : List Text} {source dest : Text} : (∀ f ∈ flags, f.IsLoneWord ∧ f.IsFlag) →
      source.IsLoneWord → ¬ "--".toList <+: source → dest.IsLoneWord →
      Canonical ("COPY".toList :: (flags ++ [source, dest]))

/-- Words with one blank between any two of them. -/
def spaced (ws : List Text) : Text := List.intercalate [' '] ws

/-- Lines of words, with a line feed between any two of them. -/
def stacked (rows : List (List Text)) : Text := List.intercalate ['\n'] (rows.map spaced)

/-! ## The statement of a canonical line -/

section Tokens

variable {ws : List Text}

/-- A word as a token that stands in no source. -/
def Token.ofLone (w : Text) : Token := .bare .word w

theorem exists_formFlags {flags : List Text} (h : ∀ f ∈ flags, f.IsLoneWord ∧ f.IsFlag) :
    ∃ fs, FormFlags (flags.map Token.ofLone) fs := by
  induction flags with
  | nil => exact ⟨[], .nil⟩
  | cons f flags ih =>
    obtain ⟨⟨-, hflag⟩, h⟩ := List.forall_mem_cons.mp h
    obtain ⟨fs, hfs⟩ := ih h
    have hf : (Token.ofLone f).IsFlag := ⟨rfl, hflag⟩
    obtain ⟨flag, hflag⟩ := hf.exists_flag?
    exact ⟨flag :: fs, .cons ⟨rfl, hflag⟩ hfs⟩

/-- The words of a canonical line form a statement with a grammar in its normal
form. -/
theorem Canonical.exists_forms (h : Canonical ws) :
    ∃ t ts s, Forms (t :: ts) s ∧ ¬ s.isOther ∧ s.normal = s ∧
      (∀ u ∈ t :: ts, u.kind.Admits u.literal) ∧ (t :: ts).map Token.literal = ws := by
  have hadmits {t : Token} {flags : List Text} {us : List Token} (ht : t.kind.Admits t.literal)
      (hfs : ∀ f ∈ flags, f.IsLoneWord ∧ f.IsFlag) (hus : ∀ u ∈ us, u.kind.Admits u.literal) :
      ∀ u ∈ t :: (flags.map Token.ofLone ++ us), u.kind.Admits u.literal :=
    List.forall_mem_cons.mpr ⟨ht, List.forall_mem_append.mpr
      ⟨List.forall_mem_map.mpr fun f hf => (hfs f hf).1.admits, hus⟩⟩
  have hliterals (t : Token) (flags : List Text) (us : List Token) :
      (t :: (flags.map Token.ofLone ++ us)).map Token.literal =
        t.literal :: (flags ++ us.map Token.literal) := by
    rw [List.map_cons, List.map_append, List.map_map]
    exact congrArg (t.literal :: · ++ us.map Token.literal) (List.map_id flags)
  cases h with
  | @comment w hw =>
    refine ⟨.bare .hash ['#'], [.ofLone w], _, .comment rfl rfl, Bool.false_ne_true, rfl, ?_, rfl⟩
    exact List.forall_mem_cons.mpr ⟨rfl, List.forall_mem_singleton.mpr hw.admits⟩
  | @arg w hw =>
    have hadmits : ∀ u ∈ [.bare (.keyword .arg) "ARG".toList, Token.ofLone w],
        u.kind.Admits u.literal :=
      List.forall_mem_cons.mpr ⟨rfl, List.forall_mem_singleton.mpr hw.admits⟩
    cases hcut : w.cut? '=' with
    | some p => exact ⟨_, _, _, .argEquals rfl rfl hcut, Bool.false_ne_true, rfl, hadmits, rfl⟩
    | none =>
      exact ⟨_, _, _, .argName rfl (Token.isName_iff.mpr ⟨rfl, hcut⟩), Bool.false_ne_true, rfl,
        hadmits, rfl⟩
  | @fromImage flags source hfs hsource hhyphens =>
    obtain ⟨fs, hforms⟩ := exists_formFlags hfs
    have hsource' : (Token.ofLone source).IsSource := ⟨rfl, hhyphens⟩
    refine ⟨.bare (.keyword .fromImage) "FROM".toList, _, _, .fromImage rfl hforms hsource',
      Bool.false_ne_true, rfl, hadmits rfl hfs ?_, hliterals ..⟩
    exact List.forall_mem_singleton.mpr hsource.admits
  | @stage flags source stage hfs hsource hhyphens hstage =>
    obtain ⟨fs, hforms⟩ := exists_formFlags hfs
    have hsource' : (Token.ofLone source).IsSource := ⟨rfl, hhyphens⟩
    have has : (Token.bare (.keyword .asName) "AS".toList).kind = .keyword .asName := rfl
    have hstage' : (Token.ofLone stage).kind = .word := rfl
    refine ⟨.bare (.keyword .fromImage) "FROM".toList, _, _,
      .stage rfl hforms hsource' has hstage', Bool.false_ne_true, rfl, hadmits rfl hfs ?_,
      hliterals ..⟩
    exact List.forall_mem_cons.mpr ⟨hsource.admits, List.forall_mem_cons.mpr
      ⟨rfl, List.forall_mem_singleton.mpr hstage.admits⟩⟩
  | @copy flags source dest hfs hsource hhyphens hdest =>
    obtain ⟨fs, hforms⟩ := exists_formFlags hfs
    have hsource' : (Token.ofLone source).IsSource := ⟨rfl, hhyphens⟩
    have hdest' : (Token.ofLone dest).kind = .word := rfl
    refine ⟨.bare (.keyword .copy) "COPY".toList, _, _, .copy rfl hforms hsource' hdest',
      Bool.false_ne_true, rfl, hadmits rfl hfs ?_, hliterals ..⟩
    exact List.forall_mem_cons.mpr ⟨hsource.admits, List.forall_mem_singleton.mpr hdest.admits⟩

end Tokens

/-! ## A canonical line by itself -/

section Line

open Token (scan glue)

variable {ws : List Text} {s : Statement} {h : Token} {ts : List Token}

/-- A statement with a grammar in its normal form is written on one line. -/
theorem Forms.lineFeed_notMem_written (hforms : Forms (h :: ts) s) (hother : ¬ s.isOther)
    (hnormal : s.normal = s) (hadmits : ∀ t ∈ h :: ts, t.kind.Admits t.literal) :
    '\n' ∉ s.written := by
  have hbare {t : Token} (ht : t ∈ h :: ts) (hkind : t.kind.isBare) : '\n' ∉ t.literal :=
    ((hadmits t ht).isWord hkind).units.lineFeed_notMem
  rw [hforms.written_eq hother hnormal hadmits, List.mem_append, List.mem_flatMap]
  rintro (hh | ⟨t, ht, htail⟩)
  · rcases hforms.isBare_or with hkind | ⟨hhash, -⟩
    · exact hbare List.mem_cons_self hkind hh
    · have hliteral := hadmits h List.mem_cons_self
      rw [hhash] at hliteral
      rw [show h.literal = ['#'] from hliteral] at hh
      exact absurd hh (by decide)
  · have hliteral := List.mem_of_ne_of_mem (by decide) htail
    exact hbare (List.mem_cons_of_mem h ht) ((hforms.isBare hother).2.2 t ht) hliteral

/-- What is written of a statement on one line may have other lines below it. -/
theorem Statement.Spelled.settled (hs : s.Spelled h ts) (hfeed : '\n' ∉ s.written) :
    Settled s.written := by
  have hscan : scan (s.written ++ ['\n']) =
      (glue h ts).map Move.forget.token ++ Token.feed :: scan [] := by
    rw [hs.written, Token.scan_spell hs.regular (Token.stops_lineFeed []),
      Token.scan_cons_lineFeed]
    rfl
  -- The line feed behind the statement is a token, and there is no other one.
  have htoken : ∃ t ∈ Token.ofSource (s.written ++ ['\n']), t.kind = .lineFeed := by
    have hmem : Token.feed ∈ scan (s.written ++ ['\n']) := by simp [hscan]
    rw [← Token.map_forget_ofSource] at hmem
    obtain ⟨t, ht, hforget⟩ := List.mem_map.mp hmem
    exact ⟨t, ht, congrArg Token.kind hforget⟩
  obtain ⟨a, b, hsplit, hclosed, hjoin⟩ := Token.exists_lineFeed_mem_ofSource_iff.mp htoken
  obtain ⟨rfl, -⟩ := (List.append_cons_inj_of_notMem hfeed List.not_mem_nil).mp hsplit
  exact ⟨hclosed, hjoin⟩

/-- **A canonical line by itself** is read as one statement that is written as
this line, and may have other lines below it. -/
theorem Canonical.parse_line (h : Canonical ws) :
    Settled (spaced ws) ∧ (parse .strict (spaced ws)).faults = [] ∧
      ∃ s, (parse .strict (spaced ws)).program.toList = [s] ∧ s.written = spaced ws := by
  obtain ⟨t, ts, s, hforms, hother, hnormal, hadmits, rfl⟩ := h.exists_forms
  have hspelled := hforms.spelled_of_normal hother hnormal hadmits
  have hwritten : spaced ((t :: ts).map Token.literal) = s.written := by
    rw [hforms.written_eq hother hnormal hadmits, spaced, List.map_cons, Text.intercalate_cons,
      List.flatMap_map]
  have hsettled := hspelled.settled (hforms.lineFeed_notMem_written hother hnormal hadmits)
  obtain ⟨hclean, hread⟩ :=
    hspelled.parse_alone_iff.mpr (Statement.unglued_of_not_isOther hother)
  obtain ⟨s', hs', hforget⟩ : ∃ s', (parse .strict s.written).program.toList = [s'] ∧
      Move.forget.statement s' = Move.forget.statement s.normal :=
    List.map_eq_singleton_iff.mp hread
  rw [hwritten]
  refine ⟨hsettled, hclean, s', hs', ?_⟩
  rw [← Move.written_statement .forget s', hforget, Move.written_statement, hnormal]

end Line

/-! ## Canonical lines one below the other -/

section Lines

variable {o : Options} {before : Text} {cs : List Text}

/-- A source is read like another one if the same statements and faults are. -/
theorem parse_eq_of_toList {t u : Text}
    (hstatements : (parse o t).program.toList = (parse o u).program.toList)
    (hfaults : (parse o t).faults = (parse o u).faults) : parse o t = parse o u := by
  have hprogram : (parse o t).program = (parse o u).program :=
    (program_parseTokens o _).trans ((congrArg _ hstatements).trans (program_parseTokens o _).symm)
  exact congrArg₂ Parsed.mk hprogram hfaults

theorem settled_nil : Settled [] := ⟨by decide +kernel, by decide +kernel⟩

/-- Where every text is read as one statement that is written as this text, the
statements of the whole are written as the texts. -/
theorem map_written_stackedStatements
    (hcs : ∀ c ∈ cs, ∃ s, (parse o c).program.toList = [s] ∧ s.written = c) :
    (stackedStatements before (cs.map fun c => (c, parse o c))).map Statement.written = cs := by
  induction cs generalizing before with
  | nil => rfl
  | cons c cs ih =>
    obtain ⟨⟨s, hread, hwritten⟩, hcs⟩ := List.forall_mem_cons.mp hcs
    rw [List.map_cons, stackedStatements, hread, List.map_append, ih hcs, List.map_singleton,
      List.map_singleton, Move.written_statement, hwritten, List.singleton_append]

/-- A line feed at the end of lines without faults does not matter. -/
theorem parse_intercalate_append (hne : cs ≠ []) (hcs : ∀ c ∈ cs, Settled c)
    (hclean : ∀ c ∈ cs, (parse o c).faults = []) :
    parse o (List.intercalate ['\n'] cs ++ ['\n']) = parse o (List.intercalate ['\n'] cs) := by
  have hcs' : ∀ c ∈ cs ++ [[]], Settled c :=
    List.forall_mem_append.mpr ⟨hcs, List.forall_mem_singleton.mpr settled_nil⟩
  have hclean' : ∀ c ∈ cs ++ [[]], (parse o c).faults = [] :=
    List.forall_mem_append.mpr ⟨hclean, List.forall_mem_singleton.mpr (parse_nil o).2⟩
  have hwhole : List.intercalate ['\n'] cs ++ ['\n'] = List.intercalate ['\n'] (cs ++ [[]]) := by
    rw [Text.intercalate_append_singleton _ hne, Text.intercalate_concat_nil]
  have hnone {ds : List Text} (hds : ∀ d ∈ ds, (parse o d).faults = []) :
      stackedFaults [] (ds.map fun d => (d, parse o d)) = [] :=
    stackedFaults_eq_nil (List.forall_mem_map.mpr hds)
  obtain ⟨hstatements, hfaults⟩ := parse_intercalate o hcs
  obtain ⟨hstatements', hfaults'⟩ := parse_intercalate o hcs'
  rw [hnone hclean] at hfaults
  rw [hnone hclean', ← hwhole] at hfaults'
  rw [List.map_append, List.map_singleton, stackedStatements_concat (parse_nil o).1,
    ← hstatements, ← hwhole] at hstatements'
  exact parse_eq_of_toList hstatements' (hfaults'.trans hfaults.symm)

end Lines

/-- **Canonical recipes are fixed points.**  Lines of words, each with one blank
between any two of them and one line below the other, are read without faults as
one statement for each line.  The program is written as these lines with a line
feed behind each, and the same program is read from what has been written, at
the same places. -/
theorem parse_canonical {rows : List (List Text)} (hne : rows ≠ [])
    (hrows : ∀ ws ∈ rows, Canonical ws) :
    let p := parse .strict (stacked rows)
    p.faults = [] ∧ p.program.toList.map Statement.written = rows.map spaced ∧
      p.program.written = stacked rows ++ ['\n'] ∧ parse .strict p.program.written = p := by
  intro p
  have hlines {P : Text → Prop} (h : ∀ ws, Canonical ws → P (spaced ws)) :
      ∀ c ∈ rows.map spaced, P c := List.forall_mem_map.mpr fun ws hws => h ws (hrows ws hws)
  have hsettled : ∀ c ∈ rows.map spaced, Settled c := hlines fun _ hws => hws.parse_line.1
  have hclean : ∀ c ∈ rows.map spaced, (parse .strict c).faults = [] :=
    hlines fun _ hws => hws.parse_line.2.1
  have hne' : rows.map spaced ≠ [] := mt List.map_eq_nil_iff.mp hne
  obtain ⟨hstatements, hfaults⟩ := parse_intercalate .strict hsettled
  have hread : p.program.toList.map Statement.written = rows.map spaced := by
    rw [show p.program.toList = _ from hstatements]
    exact map_written_stackedStatements (hlines fun _ hws => hws.parse_line.2.2)
  have hwritten : p.program.written = stacked rows ++ ['\n'] := by
    rw [stacked, Text.intercalate_append_singleton _ hne', ← hread, List.flatMap_map]
    rfl
  refine ⟨?_, hread, hwritten, ?_⟩
  · exact hfaults.trans (stackedFaults_eq_nil (List.forall_mem_map.mpr hclean))
  · rw [hwritten]
    exact parse_intercalate_append hne' hsettled hclean

/-- Lines with escaped blanks, with flags, and with other words that look like
flags. -/
theorem parse_canonical_flags :
    let rows : List (List Text) :=
      [["#".toList, "a\\ b".toList], ["ARG".toList, "é=\\ ".toList],
        ["FROM".toList, "--a=b".toList, "--c\\ d=".toList, "-e".toList, "AS".toList, "--f=".toList],
        ["COPY".toList, "g".toList, "--h".toList]]
    let p := parse .strict (stacked rows)
    rows ≠ [] ∧ (∀ ws ∈ rows, Canonical ws) ∧
      p.faults = [] ∧ p.program.toList.map Statement.written = rows.map spaced ∧
        p.program.written = stacked rows ++ ['\n'] ∧ parse .strict p.program.written = p := by
  intro rows p
  have hcomment : Canonical ["#".toList, "a\\ b".toList] := .comment (by decide +kernel)
  have harg : Canonical ["ARG".toList, "é=\\ ".toList] := .arg (by decide +kernel)
  have hflags : ∀ f ∈ (["--a=b".toList, "--c\\ d=".toList] : List Text),
      f.IsLoneWord ∧ f.IsFlag :=
    List.forall_mem_cons.mpr ⟨⟨by decide +kernel, _, rfl, by decide⟩,
      List.forall_mem_singleton.mpr ⟨by decide +kernel, _, rfl, by decide⟩⟩
  have hstage : Canonical ["FROM".toList, "--a=b".toList, "--c\\ d=".toList, "-e".toList,
      "AS".toList, "--f=".toList] :=
    .stage hflags (by decide +kernel) (by decide) (by decide +kernel)
  have hsource : Text.IsLoneWord "g".toList := by decide +kernel
  have hcopy : Canonical ["COPY".toList, "g".toList, "--h".toList] :=
    .copy (List.forall_mem_nil _) hsource (by decide) (by decide +kernel)
  have hrows : ∀ ws ∈ rows, Canonical ws := by
    simp only [rows, List.forall_mem_cons]
    exact ⟨hcomment, harg, hstage, hcopy, by simp⟩
  exact ⟨List.cons_ne_nil _ _, hrows, parse_canonical (List.cons_ne_nil _ _) hrows⟩

end Recipe
