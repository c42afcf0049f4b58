import Recipe.Fault
import Recipe.Statement.Basic
import Recipe.Token.Feed

/-!
# The grammar of statements

Each kind of statement has a grammar for the tokens behind its head.  A grammar
takes no end of line (`Grammar.StaysInLine.statement`), so a statement never
reaches into the next line.
-/

namespace Recipe

structure Options where
  /-- Whether a flag without `=` is reported.  Its line is dropped either
  way. -/
  reportMalformedFlags : Bool
  /-- Whether the lines of keywords without a grammar are kept. -/
  keepOther : Bool
deriving DecidableEq, Repr

namespace Options

/-- Everything is reported and kept. -/
def strict : Options := ⟨true, true⟩

/-- What need not be read is dropped silently. -/
def lenient : Options := ⟨false, false⟩

/-- Whether a line with this token at its head is dropped unread. -/
def drops (o : Options) : Kind → Bool
  | .keyword .fromImage | .keyword .arg | .keyword .copy => false
  | .keyword _ => !o.keepOther
  | _ => false

end Options

/-- Why a statement is not read: a fault, or nothing if the options do not ask
for it. -/
abbrev Refusal := Option Fault

/-- A reader of tokens. -/
abbrev Grammar := StateT Feed (Except Refusal)

namespace Grammar

/-- Takes the next token, which has to be of the given kind. -/
def expect (kind : Kind) : Grammar Token := fun f =>
  if f.head.kind = kind then .ok (f.head, f.tail)
  else .error (some (.unexpectedToken kind f.head))

/-- Takes the next token if it is of the given kind. -/
def accept? (kind : Kind) : Grammar (Option Token) := fun f =>
  if f.head.kind = kind then .ok (some f.head, f.tail) else .ok (none, f)

theorem expect_eq_ok_iff {kind : Kind} {f rest : Feed} {t : Token} :
    expect kind f = .ok (t, rest) ↔ f.head.kind = kind ∧ f.head = t ∧ f.tail = rest := by
  unfold expect
  split <;> simp_all

theorem length_expect_word_lt {f rest : Feed} {t : Token} (h : expect .word f = .ok (t, rest)) :
    rest.tokens.length < f.tokens.length := by
  obtain ⟨hkind, _, rfl⟩ := expect_eq_ok_iff.1 h
  exact Feed.length_tail_lt (by simp [hkind])

/-- The flags from `word` on, and the word behind them. -/
def flags (o : Options) (word : Token) : Grammar (List Flag × Token) := fun f =>
  if (Flag.body? word.literal).isNone then .ok (([], word), f)
  else
    match word.flag? with
    | none => .error (if o.reportMalformedFlags then some (.malformedFlag word) else none)
    | some flag =>
      match h : expect .word f with
      | .error e => .error e
      | .ok (next, rest) =>
        have := length_expect_word_lt h
        match flags o next rest with
        | .error e => .error e
        | .ok ((fs, source), rest) => .ok ((flag :: fs, source), rest)
termination_by f => f.tokens.length

/-- The rest of the line as words, none of them illegal. -/
def words : Grammar (List Token) := fun f =>
  match f.line.find? (·.kind = .illegal) with
  | some t => .error (some (.illegalToken t))
  | none => .ok (f.line, f.skipLine)

/-- `# value` -/
def comment (head : Token) : Grammar Statement := do
  let value ← expect .word
  return .comment value.identifier (head.span.merge value.span)

/-- `FROM flags source`, with or without `AS stage` -/
def fromImage (o : Options) (head : Token) : Grammar Statement := do
  let (fs, source) ← flags o (← expect .word)
  match ← accept? (.keyword .asName) with
  | some _ =>
    let stage ← expect .word
    return .fromImage fs source.identifier stage.identifier (head.span.merge stage.span)
  | none => return .fromImage fs source.identifier none (head.span.merge source.span)

/-- `ARG name=value`, `ARG name value` or `ARG name`.  The first `=` ends the
name. -/
def arg (head : Token) : Grammar Statement := do
  let word ← expect .word
  match word.literal.cut? '=' with
  | some (name, value) =>
    return .arg word.identifier name.unescape (some value.unescape) none
      (head.span.merge word.span)
  | none =>
    match ← accept? .word with
    | some value =>
      return .arg word.identifier word.literal.unescape (some value.literal.unescape)
        value.identifier (head.span.merge value.span)
    | none =>
      return .arg word.identifier word.literal.unescape none none (head.span.merge word.span)

/-- `COPY flags source dest` -/
def copy (o : Options) (head : Token) : Grammar Statement := do
  let (fs, source) ← flags o (← expect .word)
  let dest ← expect .word
  return .copy fs source.identifier dest.identifier (head.span.merge dest.span)

/-- Any other keyword, with the words behind it -/
def other (keyword : Keyword) (head : Token) : Grammar Statement := do
  let ws ← words
  return .other keyword (ws.map Token.word) (head.span.merge (ws.getLastD head).span)

/-- The statement that the token `head` introduces. -/
def statement (o : Options) (head : Token) : Grammar Statement :=
  match head.kind with
  | .hash => comment head
  | .keyword .fromImage => fromImage o head
  | .keyword .arg => arg head
  | .keyword .copy => copy o head
  | .keyword k => other k head
  | _ => fun _ => .error (some (.unexpectedStart head))

/-- No statement starts with the end of the text. -/
theorem statement_of_textEnd {o : Options} {t : Token} (h : t.kind = .textEnd) (f : Feed) :
    statement o t f = .error (some (.unexpectedStart t)) := by
  simp [statement, h]

/-- A grammar that takes no end of line. -/
def StaysInLine {α : Type} (g : Grammar α) : Prop :=
  ∀ ⦃f a rest⦄, g f = .ok (a, rest) → f.Reaches rest

namespace StaysInLine

variable {α β : Type}

theorem pure (a : α) : StaysInLine (Pure.pure a : Grammar α) := by
  intro f b rest h
  cases h
  exact .refl f

theorem bind {g : Grammar α} {k : α → Grammar β} (hg : StaysInLine g)
    (hk : ∀ a, StaysInLine (k a)) : StaysInLine (g >>= k) := by
  intro f b rest h
  simp only [Bind.bind, StateT.bind, Except.bind] at h
  split at h
  · cases h
  · next hgf => exact (hg hgf).trans (hk _ h)

theorem expect {kind : Kind} (h : kind.isLineEnd = false) : StaysInLine (expect kind) := by
  intro f t rest hf
  obtain ⟨rfl, _, rfl⟩ := expect_eq_ok_iff.1 hf
  exact .tail (by simp [h])

theorem accept? {kind : Kind} (h : kind.isLineEnd = false) : StaysInLine (accept? kind) := by
  intro f t rest hf
  unfold Grammar.accept? at hf
  split at hf
  · next hkind =>
    cases hf
    exact .tail (by simp [hkind, h])
  · cases hf
    exact .refl f

theorem flags (o : Options) (word : Token) : StaysInLine (flags o word) := by
  intro f
  fun_induction Grammar.flags o word f with
  | case1 => rintro _ _ ⟨⟩; exact .refl _
  | case5 word f _ flag _ next rest hnext _ fs source rest' _ ih =>
    rintro _ _ ⟨⟩
    exact (StaysInLine.expect rfl hnext).trans (ih ‹_›)
  | _ => rintro _ _ ⟨⟩

theorem words : StaysInLine words := by
  intro f ws rest h
  unfold Grammar.words at h
  split at h <;> cases h
  exact .skipLine f

theorem statement (o : Options) (head : Token) : StaysInLine (statement o head) := by
  unfold Grammar.statement
  split
  · exact (expect rfl).bind fun _ => pure _
  · refine (expect rfl).bind fun _ => (flags o _).bind fun _ => (accept? rfl).bind fun a => ?_
    cases a with
    | none => exact pure _
    | some _ => exact (expect rfl).bind fun _ => pure _
  · refine (expect rfl).bind fun word => ?_
    split
    · exact pure _
    · refine (accept? rfl).bind fun a => ?_
      cases a <;> exact pure _
  · exact (expect rfl).bind fun _ => (flags o _).bind fun _ => (expect rfl).bind fun _ => pure _
  · exact words.bind fun _ => pure _
  · rintro _ _ _ ⟨⟩

end StaysInLine

end Grammar

end Recipe
