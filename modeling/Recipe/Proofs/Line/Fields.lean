import Recipe.Proofs.Lexeme.Escaped
import Recipe.Proofs.Lexeme.Scan
import Recipe.Proofs.Line.Kept

/-!
# The fields of a statement

A statement keeps words as they are written next to what they stand for.
Neither of the two says more than the other: a word is what its value is written
as, a flag and the word of `ARG name=value` are what their two parts are written
as, and `ARG name` has a value if and only if there is a word for it
(`agrees_parse`).

## How the proof goes

A word of a source is made up of units, which `=` does not break up
(`Lexeme.IsUnits.of_append_cons`), so that each part of it is what it stands
for, written out (`Lexeme.IsUnits.escape_unescape`).  A statement gets its
fields from such words, form by form (`Forms.agrees`).
-/

namespace Recipe

open Token (lines ofSource InLine)

/-! ## What fields say of each other -/

/-- An identifier has no more in its word than in its value. -/
structure Identifier.Agrees (i : Identifier) : Prop where
  value_eq : i.value = i.literal.unescape
  backslash_notMem : '\\' ∉ i.value
  literal_eq : i.literal = i.value.escape

/-- A flag has no more in its word than in its name, which is kept as it is
written, and its value. -/
structure Flag.Agrees (f : Flag) : Prop where
  literal_eq : f.literal = "--".toList ++ f.name ++ '=' :: f.value.escape
  equals_notMem : '=' ∉ f.name

namespace Statement

/-- The identifiers that a statement holds, in order. -/
def identifiers : Statement → List Identifier
  | .comment value _ => [value]
  | .fromImage _ source stage? _ => source :: stage?.toList
  | .arg word _ _ valueWord? _ => word :: valueWord?.toList
  | .copy _ source dest _ => [source, dest]
  | .other .. => []

/-- The flags that a statement holds, in order. -/
def flags : Statement → List Flag
  | .fromImage flags _ _ _ | .copy flags _ _ _ => flags
  | .comment .. | .arg .. | .other .. => []

/-- The name and the value of `ARG` are those of its words. -/
structure ArgAgrees (word : Identifier) (name : Text) (value? : Option Text)
    (valueWord? : Option Identifier) : Prop where
  /-- In `ARG name=value` the one word is made of both. -/
  equals : '=' ∈ word.literal → valueWord? = none ∧ '=' ∉ name ∧
    ∃ value, value? = some value ∧ word.literal = name.escape ++ '=' :: value.escape
  /-- Otherwise there is a word for each. -/
  bare : '=' ∉ word.literal → name = word.value ∧ value? = valueWord?.map Identifier.value

/-- The fields of a statement agree. -/
structure Agrees (s : Statement) : Prop where
  identifiers : ∀ i ∈ s.identifiers, i.Agrees
  flags : ∀ f ∈ s.flags, f.Agrees
  arg : ∀ {word name value? valueWord? span}, s = .arg word name value? valueWord? span →
    ArgAgrees word name value? valueWord?

end Statement

/-! ## Words of a source -/

section Word

variable {t : Token} {name value : Text}

theorem Kind.Admits.isUnits (hadmits : t.kind.Admits t.literal) (ht : t.kind = .word) :
    Lexeme.IsUnits t.literal := by
  rw [ht] at hadmits
  exact hadmits.1.units

theorem Identifier.agrees_identifier (hadmits : t.kind.Admits t.literal) (ht : t.kind = .word) :
    t.identifier.Agrees where
  value_eq := rfl
  backslash_notMem := (hadmits.isUnits ht).backslash_notMem_unescape
  literal_eq := (hadmits.isUnits ht).escape_unescape.symm

theorem Flag.agrees_of_flag? {flag : Flag} (hadmits : t.kind.Admits t.literal)
    (ht : t.kind = .word) (hflag : t.flag? = some flag) : flag.Agrees := by
  simp only [Token.flag?, Option.bind_eq_bind, Option.bind_eq_some_iff, Option.pure_def,
    Option.some.injEq] at hflag
  obtain ⟨body, hbody, ⟨name, value⟩, hcut, rfl⟩ := hflag
  obtain ⟨rfl, hname⟩ := Text.cut?_eq_some_iff.mp hcut
  have hliteral : t.literal = "--".toList ++ name ++ '=' :: value :=
    Flag.body?_eq_some_iff.mp hbody
  have hunits := hadmits.isUnits ht
  rw [hliteral] at hunits
  obtain ⟨-, hvalue⟩ := hunits.of_append_cons (by decide) (by decide)
  exact ⟨by rw [hliteral, hvalue.escape_unescape], hname⟩

/-- A word that `=` cuts is made of what its two parts stand for. -/
theorem Statement.argAgrees_of_cut? (hadmits : t.kind.Admits t.literal) (ht : t.kind = .word)
    (hcut : t.literal.cut? '=' = some (name, value)) :
    ArgAgrees t.identifier name.unescape (some value.unescape) none := by
  obtain ⟨hliteral, hname⟩ := Text.cut?_eq_some_iff.mp hcut
  have hunits := hadmits.isUnits ht
  rw [hliteral] at hunits
  obtain ⟨hn, hv⟩ := hunits.of_append_cons (by decide) (by decide)
  constructor
  · intro _
    refine ⟨rfl, mt Text.mem_of_mem_unescape hname, value.unescape, rfl, ?_⟩
    rw [hn.escape_unescape, hv.escape_unescape]
    exact hliteral
  · intro hnone
    have hmem : '=' ∈ t.literal := by simp [hliteral]
    exact absurd hmem hnone

end Word

/-! ## Statements that tokens form -/

theorem FormFlags.agrees {ts : List Token} {flags : List Flag} (hfs : FormFlags ts flags)
    (hadmits : ∀ t ∈ ts, t.kind.Admits t.literal) : ∀ f ∈ flags, f.Agrees := by
  induction hfs with
  | nil => simp
  | cons ht _ ih =>
    obtain ⟨hhead, hadmits⟩ := List.forall_mem_cons.mp hadmits
    exact List.forall_mem_cons.mpr ⟨Flag.agrees_of_flag? hhead ht.1 ht.2, ih hadmits⟩

/-- The fields of a statement agree, whatever source its tokens come from. -/
theorem Forms.agrees {ts : List Token} {s : Statement} (hforms : Forms ts s)
    (hadmits : ∀ t ∈ ts, t.kind.Admits t.literal) : s.Agrees := by
  have hword {t : Token} (hmem : t ∈ ts) (ht : t.kind = .word) : t.identifier.Agrees :=
    Identifier.agrees_identifier (hadmits t hmem) ht
  have hflags {us : List Token} {flags : List Flag} (hfs : FormFlags us flags) (hus : us ⊆ ts) :
      ∀ f ∈ flags, f.Agrees :=
    hfs.agrees fun t ht => hadmits t (hus ht)
  have hbare {word : Token} (hname : word.IsName) : '=' ∉ word.identifier.literal := hname.2
  cases hforms with
  | comment _ hvalue =>
    refine ⟨?_, by simp [Statement.flags], by rintro _ _ _ _ _ ⟨⟩⟩
    simp [Statement.identifiers, hword _ hvalue]
  | fromImage _ hfs hsource =>
    refine ⟨?_, hflags hfs (by simp), by rintro _ _ _ _ _ ⟨⟩⟩
    simp [Statement.identifiers, hword _ hsource.1]
  | stage _ hfs hsource _ hstage =>
    refine ⟨?_, hflags hfs (by simp), by rintro _ _ _ _ _ ⟨⟩⟩
    simp [Statement.identifiers, hword _ hsource.1, hword _ hstage]
  | argEquals _ hw hcut =>
    refine ⟨?_, by simp [Statement.flags], ?_⟩
    · simp [Statement.identifiers, hword _ hw]
    · rintro _ _ _ _ _ ⟨⟩
      exact Statement.argAgrees_of_cut? (hadmits _ (by simp)) hw hcut
  | argPair _ hname hvalue =>
    refine ⟨?_, by simp [Statement.flags], ?_⟩
    · simp [Statement.identifiers, hword _ hname.1, hword _ hvalue]
    · rintro _ _ _ _ _ ⟨⟩
      exact ⟨fun h => absurd h (hbare hname), fun _ => ⟨rfl, rfl⟩⟩
  | argName _ hname =>
    refine ⟨?_, by simp [Statement.flags], ?_⟩
    · simp [Statement.identifiers, hword _ hname.1]
    · rintro _ _ _ _ _ ⟨⟩
      exact ⟨fun h => absurd h (hbare hname), fun _ => ⟨rfl, rfl⟩⟩
  | copy _ hfs hsource hdest =>
    refine ⟨?_, hflags hfs (by simp), by rintro _ _ _ _ _ ⟨⟩⟩
    simp [Statement.identifiers, hword _ hsource.1, hword _ hdest]
  | other =>
    exact ⟨by simp [Statement.identifiers], by simp [Statement.flags], by rintro _ _ _ _ _ ⟨⟩⟩

/-! ## The word behind a name -/

section Source

variable {o : Options} {source : Text} {word : Identifier} {name : Text} {value? : Option Text}
  {valueWord? : Option Identifier} {span : Span}

/-- The value of `ARG name` is the token behind the name, if that is a word. -/
theorem exists_behind_name {ws : List Token} {e : Token} (hws : InLine ws)
    (he : e.kind.isLineEnd)
    (hs : .arg word name value? valueWord? span ∈ (parseTokens o (ws ++ [e])).program.toList)
    (hbare : '=' ∉ word.literal) :
    ∃ h w t r, ws ++ [e] = h :: w :: t :: r ∧ h.kind = .keyword .arg ∧ w.identifier = word ∧
      (valueWord? = none ↔ t.kind ≠ .word) := by
  obtain ⟨h, ts, t, r, hline, -, hread, -⟩ := exists_statement_of_mem_line hws he hs
  obtain ⟨ts', htokens, hforms⟩ := Grammar.forms_of_statement hread
  obtain rfl : ts = ts' := List.append_cancel_right htokens
  cases hforms with
  | @argEquals _ w _ _ _ _ hcut =>
    have hmem : '=' ∈ w.literal := by simp [(Text.cut?_eq_some_iff.mp hcut).1]
    exact absurd hmem hbare
  | @argPair _ w value hh _ hvalue => exact ⟨h, w, value, t :: r, hline, hh, rfl, by simp [hvalue]⟩
  | @argName _ w hh hname =>
    refine ⟨h, w, t, r, hline, hh, rfl, iff_of_true rfl fun ht => ?_⟩
    -- The grammar would have taken the word.
    rw [List.singleton_append, Grammar.statement_of_argPair hh hname ht] at hread
    cases hread

/-- **The fields of a statement determine each other.**  Of whatever source and
with whatever options a statement is read: in each of its identifiers, the value
is the word with its escaped spaces resolved, and the word is the value with its
spaces escaped; a flag is its name and its value, written out; and so is the
word of `ARG` if it holds `=`.  If it does not, it is the name, and the value is
that of the word behind it in its line.  There is no value exactly if the token
behind the name is no word. -/
theorem agrees_parse (o : Options) (source : Text) :
    ∀ s ∈ (parse o source).program.toList, s.Agrees ∧
      ∀ word name value? valueWord? span, s = .arg word name value? valueWord? span →
        '=' ∉ word.literal →
        ∃ l ∈ lines (ofSource source), ∃ h w t r, l = h :: w :: t :: r ∧
          h.kind = .keyword .arg ∧ w.identifier = word ∧ (valueWord? = none ↔ t.kind ≠ .word) := by
  intro s hs
  constructor
  · obtain ⟨as, h, ts, bs, hsource, -, -, hforms, -⟩ := exists_forms_of_mem_parse hs
    refine hforms.agrees fun t ht => ?_
    have hmem : t ∈ ofSource source :=
      hsource ▸ List.mem_append_right as (List.mem_append_left bs ht)
    exact Token.admits_of_mem_ofSource hmem
  · rintro word name value? valueWord? span rfl hbare
    have hclosed := Token.Closed.ofSource source
    rw [parse, hclosed.toList_parseTokens, List.mem_flatMap] at hs
    obtain ⟨l, hl, hs⟩ := hs
    obtain ⟨ws, e, hws, he, rfl⟩ := hclosed.exists_of_mem_lines hl
    exact ⟨_, hl, exists_behind_name hws he hs hbare⟩

/-- A copy with escaped spaces in its flag, and a name with no word behind
it. -/
theorem agrees_parse_name :
    let source : Text := "COPY --a\\ =\\ b=c d \\ \nARG e\\  [".toList
    let word : Identifier := ⟨"e\\ ".toList, "e ".toList, ⟨26, 29⟩⟩
    let s : Statement := .arg word "e ".toList none none ⟨22, 29⟩
    s ∈ (parse .lenient source).program.toList ∧ '=' ∉ word.literal ∧ s.Agrees ∧
      ∃ l ∈ lines (ofSource source), ∃ h w t r, l = h :: w :: t :: r ∧
        h.kind = .keyword .arg ∧ w.identifier = word ∧ t.kind ≠ .word := by
  intro source word s
  have hs : s ∈ (parse .lenient source).program.toList := by decide +kernel
  have hbare : '=' ∉ word.literal := by decide
  obtain ⟨hagrees, hbehind⟩ := agrees_parse .lenient source s hs
  obtain ⟨l, hl, h, w, t, r, hline, hh, hw, ht⟩ := hbehind word _ _ _ _ rfl hbare
  exact ⟨hs, hbare, hagrees, l, hl, h, w, t, r, hline, hh, hw, ht.mp rfl⟩

end Source

end Recipe
