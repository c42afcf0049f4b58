import Recipe.Proofs.Program.Recorded
import Recipe.Proofs.Written.Glue

/-!
# The normal form of statements

A statement is written with the words it was read from, but for `ARG name
value`, which is written as the one word `name=value`.  `Statement.normal` is
the statement with that word, and `Forms.exists_spelled` says that the written
form of a statement spells tokens that form its normal form.
-/

namespace Recipe

namespace Statement

/-- The statement with the two words of `ARG name value` made one. -/
def normal : Statement → Statement
  | .arg word name value? (some value) span =>
    let literal := word.literal ++ '=' :: value.literal
    .arg ⟨literal, literal.unescape, word.span.merge value.span⟩ name value? none span
  | s => s

/-- Whether the words of a line without a grammar are read apart where the line
is written: none of them is glued to a bare word or a keyword in front of it. -/
def Unglued : Statement → Prop
  | .other k ws _ => (Kind.keyword k :: ws.map Word.kind).IsChain Kind.Apart
  | _ => True

instance : DecidablePred Unglued
  | .other k ws _ =>
    inferInstanceAs (Decidable ((Kind.keyword k :: ws.map Word.kind).IsChain Kind.Apart))
  | .comment .. | .fromImage .. | .arg .. | .copy .. => inferInstanceAs (Decidable True)

/-- Whether the line is kept as a list of words. -/
def isOther : Statement → Bool
  | .other .. => true
  | _ => false

@[simp] theorem written_normal (s : Statement) : s.normal.written = s.written := by
  cases s with
  | arg word name value? valueWord? span =>
    cases valueWord? with
    | none => rfl
    | some value =>
      show "ARG ".toList ++ (word.literal ++ '=' :: value.literal) = _
      rw [← List.append_assoc]
      rfl
  | _ => rfl

@[simp] theorem isComment_normal (s : Statement) : s.normal.isComment = s.isComment := by
  cases s with
  | arg word name value? valueWord? span => cases valueWord? <;> rfl
  | _ => rfl

@[simp] theorem isOther_normal (s : Statement) : s.normal.isOther = s.isOther := by
  cases s with
  | arg word name value? valueWord? span => cases valueWord? <;> rfl
  | _ => rfl

@[simp] theorem isOther_move (m : Move) (s : Statement) : (m.statement s).isOther = s.isOther := by
  cases s <;> rfl

/-- There is nothing left to make normal. -/
theorem normal_move_normal (m : Move) (s : Statement) :
    (m.statement s.normal).normal = m.statement s.normal := by
  cases s with
  | arg word name value? valueWord? span => cases valueWord? <;> rfl
  | _ => rfl

theorem unglued_of_not_isOther {s : Statement} (h : ¬ s.isOther) : s.Unglued := by
  cases s with
  | other => exact absurd rfl h
  | _ => exact trivial

end Statement

namespace Program

/-- The program with all its statements in normal form. -/
def normal (p : Program) : Program :=
  ⟨p.directives.map Statement.normal, p.statements.map Statement.normal⟩

theorem written_map {g : Statement → Statement} (hg : ∀ s, (g s).written = s.written)
    (ss : List Statement) :
    ((ss.map g).flatMap fun s => s.written ++ ['\n']) =
      ss.flatMap fun s => s.written ++ ['\n'] := by
  rw [List.flatMap_map]
  simp only [hg]

/-- A program is written in the same way wherever it stands. -/
theorem written_move (m : Move) (p : Program) : (m.program p).written = p.written := by
  rw [written, toList, Move.program, ← List.map_append]
  exact written_map m.written_statement p.toList

theorem written_normal (p : Program) : p.normal.written = p.written := by
  rw [written, toList, normal, ← List.map_append]
  exact written_map Statement.written_normal p.toList

end Program

/-! ## The tokens that a statement is written as -/

namespace Word

/-- Bare words are written with a blank in front of each. -/
theorem writtenList_of_isBare {k : Kind} {ws : List Word} (hk : k ≠ .leftBracket)
    (hws : ∀ w ∈ ws, w.kind.isBare) :
    writtenList k ws = ws.flatMap fun w => ' ' :: w.literal := by
  induction ws generalizing k with
  | nil => rfl
  | cons w ws ih =>
    obtain ⟨hw, hws⟩ := List.forall_mem_cons.mp hws
    have htight : ¬ w.isTight k := by
      obtain ⟨kind, literal, span⟩ := w
      cases kind with
      | word | keyword => simp [isTight, hk]
      | _ => cases hw
    have hopening : w.kind ≠ .leftBracket := by
      intro hkind
      rw [hkind] at hw
      cases hw
    rw [writtenList, if_neg htight, written_of_ne_string (Token.ne_string_of_isBare hw),
      ih hopening hws]
    rfl

end Word

namespace Token

variable {h : Token} {ts : List Token}

theorem spell_of_isBare (hstring : h.kind ≠ .string) (hopening : h.kind ≠ .leftBracket)
    (hts : ∀ t ∈ ts, t.kind.isBare) :
    spell (h :: ts) = h.literal ++ ts.flatMap fun t => ' ' :: t.literal := by
  have hwords : ∀ w ∈ ts.map Token.word, w.kind.isBare := List.forall_mem_map.mpr hts
  rw [spell, Word.written_of_ne_string hstring, Word.writtenList_of_isBare hopening hwords,
    List.flatMap_map]
  rfl

/-- Bare words stay apart from whatever stands in front of them. -/
theorem isChain_of_isBare (hts : ∀ t ∈ ts, t.kind.isBare) :
    (h :: ts).IsChain fun t u => t.kind.Apart u.kind := by
  induction ts generalizing h with
  | nil => exact List.isChain_singleton h
  | cons t ts ih =>
    obtain ⟨ht, hts⟩ := List.forall_mem_cons.mp hts
    refine List.isChain_cons_cons.mpr ⟨?_, ih hts⟩
    rintro ⟨-, hclosing⟩
    cases hkind : t.kind with
    | rightBracket | comma => rw [hkind] at ht; cases ht
    | _ => rw [hkind] at hclosing; cases hclosing

end Token

namespace FormFlags

variable {ts : List Token} {flags : List Flag}

theorem kind_eq (h : FormFlags ts flags) : ∀ t ∈ ts, t.kind = .word := by
  induction h with
  | nil => simp
  | cons ht _ ih => exact List.forall_mem_cons.mpr ⟨ht.1, ih⟩

/-- The literal of a flag is that of its token. -/
theorem literal_of_flag? {t : Token} {flag : Flag} (h : t.flag? = some flag) :
    flag.literal = t.literal := by
  simp only [Token.flag?, Option.bind_eq_bind, Option.bind_eq_some_iff, Option.pure_def,
    Option.some.injEq] at h
  obtain ⟨_, -, _, -, rfl⟩ := h
  rfl

theorem writtenList (h : FormFlags ts flags) :
    Flag.writtenList flags = ts.flatMap fun t => ' ' :: t.literal := by
  induction h with
  | nil => rfl
  | cons ht _ ih =>
    rw [Flag.writtenList, List.flatMap_cons, List.flatMap_cons, literal_of_flag? ht.2, ← ih]
    rfl

end FormFlags

/-- The statement is written as the tokens, and these form its normal form. -/
structure Statement.Spelled (s : Statement) (h : Token) (ts : List Token) : Prop where
  forms : ∃ s', Forms (h :: ts) s' ∧ Move.forget.statement s' = Move.forget.statement s.normal
  regular : ∀ t ∈ h :: ts, t.word.IsRegular
  written : s.written = Token.spell (h :: ts)
  apart : s.Unglued ↔ (h :: ts).IsChain fun t u => t.kind.Apart u.kind

namespace Forms

variable {h : Token} {ts : List Token} {s : Statement}

/-- The lines of statements with a grammar hold nothing but bare words behind
their heads. -/
theorem isBare (hforms : Forms (h :: ts) s) (hother : ¬ s.isOther) :
    h.kind ≠ .string ∧ h.kind ≠ .leftBracket ∧ ∀ t ∈ ts, t.kind.isBare := by
  have hword {t : Token} (ht : t.kind = .word) : t.kind.isBare := by
    rw [ht]
    rfl
  have hflags {ts us : List Token} {flags : List Flag} (hfs : FormFlags ts flags)
      (hus : ∀ u ∈ us, u.kind.isBare) : ∀ t ∈ ts ++ us, t.kind.isBare :=
    List.forall_mem_append.mpr ⟨fun t ht => hword (hfs.kind_eq t ht), hus⟩
  cases hforms with
  | comment hh hvalue => simp [hh, hword hvalue]
  | fromImage hh hfs hsource =>
    refine ⟨by simp [hh], by simp [hh], hflags hfs ?_⟩
    simp [hword hsource.1]
  | @stage _ _ as _ _ _ hh hfs hsource has hstage =>
    refine ⟨by simp [hh], by simp [hh], hflags hfs ?_⟩
    have has' : as.kind.isBare := by rw [has]; rfl
    simp [hword hsource.1, hword hstage, has']
  | argEquals hh hname _ => simp [hh, hword hname]
  | argPair hh hname hvalue => simp [hh, hword hname.1, hword hvalue]
  | argName hh hname => simp [hh, hword hname.1]
  | copy hh hfs hsource hdest =>
    refine ⟨by simp [hh], by simp [hh], hflags hfs ?_⟩
    simp [hword hsource.1, hword hdest]
  | other => exact absurd rfl hother

/-- Whatever forms a statement may stand in a line. -/
theorem isPiece (hforms : Forms (h :: ts) s) : ∀ t ∈ h :: ts, t.IsPiece := by
  have hbare {t : Token} (ht : t.kind.isBare) : t.IsPiece := by
    constructor
    · intro hkind
      rw [hkind] at ht
      cases ht
    · intro hend
      cases hkind : t.kind with
      | lineFeed | textEnd => rw [hkind] at ht; cases ht
      | _ => rw [hkind] at hend; cases hend
  by_cases hother : s.isOther
  · cases hforms with
    | other hh _ hts =>
      refine List.forall_mem_cons.mpr ⟨hbare ?_, hts⟩
      rw [hh]
      rfl
    | _ => cases hother
  · obtain ⟨-, -, hts⟩ := hforms.isBare hother
    refine List.forall_mem_cons.mpr ⟨⟨?_, hforms.not_isLineEnd⟩, fun t ht => hbare (hts t ht)⟩
    cases hforms with
    | other => exact absurd rfl hother
    | _ => simp [*]

/-- The first token of a statement is its head. -/
theorem literal_eq_head (hforms : Forms (h :: ts) s) (hadmits : h.kind.Admits h.literal) :
    h.literal = s.head := by
  cases hforms with
  | comment hh | fromImage hh | stage hh | argEquals hh | argPair hh | argName hh | copy hh
  | other hh =>
    rw [hh] at hadmits
    exact hadmits

/-- A statement with a grammar is written with a blank in front of each word, if
it is in normal form. -/
theorem written_eq (hforms : Forms (h :: ts) s) (hother : ¬ s.isOther) (hnormal : s.normal = s)
    (hadmits : ∀ t ∈ h :: ts, t.kind.Admits t.literal) :
    s.written = h.literal ++ ts.flatMap fun t => ' ' :: t.literal := by
  obtain ⟨hhead, hts⟩ := List.forall_mem_cons.mp hadmits
  rw [hforms.literal_eq_head hhead]
  cases hforms with
  | comment | argEquals | argName =>
    rw [List.flatMap_singleton]
    rfl
  | fromImage hh hfs hsource =>
    rw [List.flatMap_append, List.flatMap_singleton, ← hfs.writtenList, ← List.append_assoc]
    rfl
  | @stage _ source as stage ts flags hh hfs hsource has hstage =>
    have hliteral : as.kind.Admits as.literal := hts as (by simp)
    rw [has] at hliteral
    have hrest : ([source, as, stage].flatMap fun t => ' ' :: t.literal) =
        ' ' :: source.literal ++ (" AS ".toList ++ stage.literal) := by
      rw [List.flatMap_cons, List.flatMap_cons, List.flatMap_singleton,
        show as.literal = Keyword.asName.text from hliteral]
      rfl
    rw [List.flatMap_append, ← hfs.writtenList, hrest]
    simp only [← List.append_assoc]
    rfl
  | argPair =>
    obtain ⟨-, -, -, hvalue, -⟩ := Statement.arg.inj hnormal
    cases hvalue
  | copy hh hfs hsource hdest =>
    rw [List.flatMap_append, List.flatMap_cons, List.flatMap_singleton, ← hfs.writtenList,
      ← List.append_assoc, ← List.append_assoc]
    rfl
  | other => exact absurd rfl hother

theorem isRegular (hforms : Forms (h :: ts) s) (hadmits : ∀ t ∈ h :: ts, t.kind.Admits t.literal) :
    ∀ t ∈ h :: ts, t.word.IsRegular := by
  intro t ht
  obtain ⟨hlegal, hline⟩ := hforms.isPiece t ht
  exact ⟨hadmits t ht, hlegal, hline⟩

/-- A statement with a grammar that is in normal form is written as the tokens
that form it. -/
theorem spelled_of_normal (hforms : Forms (h :: ts) s) (hother : ¬ s.isOther)
    (hnormal : s.normal = s) (hadmits : ∀ t ∈ h :: ts, t.kind.Admits t.literal) :
    s.Spelled h ts where
  forms := ⟨s, hforms, congrArg _ hnormal.symm⟩
  regular := hforms.isRegular hadmits
  written := by
    obtain ⟨hstring, hopening, hts⟩ := hforms.isBare hother
    rw [hforms.written_eq hother hnormal hadmits, Token.spell_of_isBare hstring hopening hts]
  apart := by
    obtain ⟨-, -, hts⟩ := hforms.isBare hother
    exact iff_of_true (Statement.unglued_of_not_isOther hother) (Token.isChain_of_isBare hts)

/-- A line that is kept as words is written as these words. -/
theorem spelled_of_isOther (hforms : Forms (h :: ts) s) (hother : s.isOther)
    (hadmits : ∀ t ∈ h :: ts, t.kind.Admits t.literal) : s.Spelled h ts := by
  have hregular := hforms.isRegular hadmits
  have hhead := hforms.literal_eq_head (hadmits h List.mem_cons_self)
  have hforms' := hforms
  cases hforms with
  | @other _ k _ hh _ _ =>
    have hstring : h.word.kind ≠ .string := by
      rw [show h.word.kind = h.kind from rfl, hh]
      rintro ⟨⟩
    constructor
    · exact ⟨_, hforms', rfl⟩
    · exact hregular
    · rw [Token.spell, Word.written_of_ne_string hstring, hh]
      exact congrArg (· ++ Word.writtenList (.keyword k) (ts.map Token.word)) hhead.symm
    · have hkinds : h.kind :: (ts.map Token.word).map Word.kind = (h :: ts).map Token.kind := by
        rw [List.map_map]
        rfl
      rw [Statement.Unglued, ← hh, hkinds]
      exact List.isChain_map _
  | _ => cases hother

/-- The two words of `ARG name value` make up one that is cut where they
meet. -/
theorem argEquals_of_argPair {name value : Token} (hh : h.kind = .keyword .arg)
    (hname : name.IsName) :
    Forms [h, .bare .word (name.literal ++ '=' :: value.literal)]
      (.arg (Token.bare .word (name.literal ++ '=' :: value.literal)).identifier
        name.literal.unescape (some value.literal.unescape) none (h.span.merge .zero)) :=
  .argEquals hh rfl (Text.cut?_eq_some_iff.mpr ⟨rfl, hname.2⟩)

theorem admits_argEquals {name value : Text} (hname : Kind.word.Admits name)
    (hvalue : Kind.word.Admits value) : Kind.word.Admits (name ++ '=' :: value) := by
  constructor
  · exact hname.1.append (.plain rfl hvalue.1.units)
  · refine Kind.ofWord_of_mem (c := '=') (fun k => ?_) (by simp)
    cases k <;> decide

theorem spelled_of_argPair {name value : Token} (hh : h.kind = .keyword .arg)
    (hname : name.IsName) (hvalue : value.kind = .word)
    (hadmits : ∀ t ∈ [h, name, value], t.kind.Admits t.literal) :
    (Statement.arg name.identifier name.literal.unescape (some value.literal.unescape)
      (some value.identifier) (h.span.merge value.span)).Spelled h
      [.bare .word (name.literal ++ '=' :: value.literal)] := by
  have hforms := @argEquals_of_argPair h name value hh hname
  have hadmits' : Kind.word.Admits (name.literal ++ '=' :: value.literal) :=
    admits_argEquals (hname.1 ▸ hadmits name (by simp)) (hvalue ▸ hadmits value (by simp))
  have hspelled := hforms.spelled_of_normal (by rintro ⟨⟩) rfl (by
    intro t ht
    rcases List.mem_cons.mp ht with rfl | ht
    · exact hadmits t List.mem_cons_self
    · obtain rfl := List.mem_singleton.mp ht
      exact hadmits')
  constructor
  · exact ⟨_, hforms, rfl⟩
  · exact hspelled.regular
  · rw [← hspelled.written]
    exact List.append_assoc _ _ _
  · exact iff_of_true trivial (hspelled.apart.mp trivial)

/-- **What is written forms the normal form**: every statement that tokens of a
source form is written as tokens that form its normal form. -/
theorem exists_spelled (hforms : Forms ts s) (hadmits : ∀ t ∈ ts, t.kind.Admits t.literal) :
    ∃ h us, s.Spelled h us := by
  have hcons : ∃ h us, ts = h :: us := by cases hforms <;> exact ⟨_, _, rfl⟩
  obtain ⟨h, ts, rfl⟩ := hcons
  by_cases hother : s.isOther
  · exact ⟨h, ts, hforms.spelled_of_isOther hother hadmits⟩
  by_cases hnormal : s.normal = s
  · exact ⟨h, ts, hforms.spelled_of_normal hother hnormal hadmits⟩
  · cases hforms with
    | argPair hh hname hvalue => exact ⟨h, _, spelled_of_argPair hh hname hvalue hadmits⟩
    | _ => exact absurd rfl hnormal

end Forms

end Recipe
