import Recipe.Fault
import Recipe.Program.Basic

/-!
# Moving places

What a recipe means does not depend on where its tokens stand.  A `Move` changes
spans and positions and nothing else; it acts on every part of a program and on
its faults.  `Move.forget` puts everything at the start of the source, so that
parts which agree but for places become equal; `Move.shift`, `Move.below` and
`Move.behind` take what was read of a piece of a source to where the piece
stands.
-/

namespace Recipe

/-- A change of places that keeps the smallest span around two spans. -/
structure Move where
  span : Span → Span
  position : Position → Position
  span_merge : ∀ s t, span (s.merge t) = (span s).merge (span t)

namespace Move

/-- The move that leaves everything where it is. -/
def stay : Move := ⟨id, id, fun _ _ => rfl⟩

/-- The move that forgets all places. -/
def forget : Move := ⟨fun _ => .zero, fun _ => .start, fun _ _ => rfl⟩

/-- The move by `n` bytes towards the end of a source.  It forgets positions:
what `n` bytes are in lines and columns depends on the source. -/
def shift (n : Nat) : Move where
  span s := ⟨s.start + n, s.stop + n⟩
  position _ := .start
  span_merge s t := by simp only [Span.merge, Nat.add_min_add_right, Nat.add_max_add_right]

/-- The move by some bytes and some lines towards the end of a source, in
numbers of 32 bits. -/
def down (bytes lines : Nat) : Move where
  span s := .ofBytes (s.start + bytes) (s.stop + bytes)
  position p := ⟨wrap (p.line + lines), p.column⟩
  span_merge s t := by
    rw [Span.merge_ofBytes, Nat.add_min_add_right, Nat.add_max_add_right]
    rfl

/-- The move of a text that is put behind the text `a`, in a new line. -/
def below (a : Text) : Move := down (a.byteSize + 1) (a.count '\n' + 1)

/-- The move of a text that is put right behind the text `a`, which ends a
line. -/
def behind (a : Text) : Move := down a.byteSize (a.count '\n')

/-- The move `n`, and `m` after it. -/
def comp (m n : Move) : Move where
  span s := m.span (n.span s)
  position p := m.position (n.position p)
  span_merge s t := by rw [n.span_merge, m.span_merge]

variable (m : Move)

def token (t : Token) : Token :=
  { t with position := m.position t.position, span := m.span t.span }

def identifier (i : Identifier) : Identifier := { i with span := m.span i.span }

def flag (f : Flag) : Flag := { f with span := m.span f.span }

def word (w : Word) : Word := { w with span := m.span w.span }

def statement : Statement → Statement
  | .comment value s => .comment (m.identifier value) (m.span s)
  | .fromImage flags source stage? s =>
    .fromImage (flags.map m.flag) (m.identifier source) (stage?.map m.identifier) (m.span s)
  | .arg word name value? valueWord? s =>
    .arg (m.identifier word) name value? (valueWord?.map m.identifier) (m.span s)
  | .copy flags source dest s =>
    .copy (flags.map m.flag) (m.identifier source) (m.identifier dest) (m.span s)
  | .other keyword words s => .other keyword (words.map m.word) (m.span s)

def fault (f : Fault) : Fault :=
  { f with span := m.span f.span, position := m.position f.position }

def program (p : Program) : Program :=
  ⟨p.directives.map m.statement, p.statements.map m.statement⟩

@[simp] theorem kind_token (t : Token) : (m.token t).kind = t.kind := rfl

@[simp] theorem literal_token (t : Token) : (m.token t).literal = t.literal := rfl

@[simp] theorem span_token (t : Token) : (m.token t).span = m.span t.span := rfl

@[simp] theorem identifier_token (t : Token) :
    (m.token t).identifier = m.identifier t.identifier := rfl

@[simp] theorem merge_token (t u : Token) :
    (m.token t).span.merge (m.token u).span = m.span (t.span.merge u.span) :=
  (m.span_merge t.span u.span).symm

/-- Whether a token is a flag, and which one, does not depend on its place. -/
theorem flag?_token (t : Token) : (m.token t).flag? = t.flag?.map m.flag := by
  simp only [Token.flag?, literal_token, span_token, Option.bind_eq_bind, Option.pure_def]
  cases Flag.body? t.literal with
  | none => rfl
  | some body => cases h : body.cut? '=' <;> simp [h, flag]

@[simp] theorem isComment_statement (s : Statement) :
    (m.statement s).isComment = s.isComment := by
  cases s <;> rfl

@[simp] theorem writtenList_words (k : Kind) (ws : List Word) :
    Word.writtenList k (ws.map m.word) = Word.writtenList k ws := by
  induction ws generalizing k with
  | nil => rfl
  | cons w ws ih =>
    rw [List.map_cons, Word.writtenList, Word.writtenList, ih]
    rfl

@[simp] theorem writtenList_flags (fs : List Flag) :
    Flag.writtenList (fs.map m.flag) = Flag.writtenList fs := by
  rw [Flag.writtenList, Flag.writtenList, List.flatMap_map]
  rfl

/-- A statement is written in the same way wherever it stands. -/
@[simp] theorem written_statement (s : Statement) : (m.statement s).written = s.written := by
  cases s with
  | comment value s => rfl
  | fromImage flags source stage? s =>
    have hflags := m.writtenList_flags flags
    cases stage? with
    | none => exact congrArg ("FROM".toList ++ · ++ ' ' :: source.literal) hflags
    | some stage =>
      exact congrArg ("FROM".toList ++ · ++ ' ' :: source.literal ++ " AS ".toList ++ stage.literal)
        hflags
  | arg word name value? valueWord? s => cases valueWord? <;> rfl
  | copy flags source dest s =>
    exact congrArg ("COPY".toList ++ · ++ ' ' :: source.literal ++ ' ' :: dest.literal)
      (m.writtenList_flags flags)
  | other keyword words s =>
    exact congrArg (keyword.text ++ ·) (m.writtenList_words (.keyword keyword) words)

theorem statement_comp (n : Move) : (m.comp n).statement = m.statement ∘ n.statement := by
  have hspan (s : Span) : (m.comp n).span s = m.span (n.span s) := rfl
  have hidentifier : (m.comp n).identifier = m.identifier ∘ n.identifier := rfl
  have hflag : (m.comp n).flag = m.flag ∘ n.flag := rfl
  have hword : (m.comp n).word = m.word ∘ n.word := rfl
  funext s
  cases s <;> simp [statement, hspan, hidentifier, hflag, hword]

theorem fault_comp (n : Move) : (m.comp n).fault = m.fault ∘ n.fault := rfl

theorem down_comp_down (bytes lines bytes' lines' : Nat) :
    (down bytes lines).comp (down bytes' lines') = down (bytes' + bytes) (lines' + lines) := by
  simp only [comp, down, Span.ofBytes, saturate_saturate_add, wrap_wrap_add, Nat.add_assoc]

/-- What stands below `a`, in a text that is put behind `before`, stands behind
both. -/
theorem behind_comp_below (before a : Text) :
    (behind before).comp (below a) = behind (before ++ a ++ ['\n']) := by
  have hfeed : Text.byteSize ['\n'] = 1 := rfl
  rw [behind, below, down_comp_down, behind]
  simp only [Text.byteSize_append, List.count_append, List.count_singleton_self, hfeed]
  congr 1 <;> omega

@[simp] theorem fault_stay : stay.fault = id := rfl

/-- A move that keeps spans keeps statements, which have no positions. -/
theorem statement_eq_id {m : Move} (h : ∀ s, m.span s = s) : m.statement = id := by
  have hidentifier : m.identifier = id := funext fun i => by rw [identifier, h, id]
  have hflag : m.flag = id := funext fun f => by rw [flag, h, id]
  have hword : m.word = id := funext fun w => by rw [word, h, id]
  funext s
  cases s <;> simp [statement, hidentifier, hflag, hword, h]

@[simp] theorem statement_stay : stay.statement = id := statement_eq_id fun _ => rfl

@[simp] theorem statement_shift_zero : (shift 0).statement = id := statement_eq_id fun _ => rfl

end Move

end Recipe
