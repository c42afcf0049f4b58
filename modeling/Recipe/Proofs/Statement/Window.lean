import Mathlib.Logic.Function.Iterate
import Recipe.Proofs.Statement.Locality

/-!
# Reading through a window

A reader that takes its tokens one at a time does not see where its line ends.
It stands at a token and looks ahead at the next one, it reports what is wrong
as soon as it finds it, and where it gives up it stands at some token of its
line, and has to go on from there.

`Window` is such a reader, and a `Walk` is what it does until it gives up or has
a result.  For every grammar there is a walk that mirrors it
(`Walk.Mirrors.statement`): at a feed it gives what the grammar gives and
reports why the grammar refuses, and in either case it has moved over tokens of
the line only (`Window.Reaches`).  From everywhere in a line, the end of the
line is the same (`Window.Reaches.skipLine_eq`).
-/

namespace Recipe

/-- The token a reader stands at, the one it looks ahead at, those behind it,
and what has been reported. -/
structure Window where
  current : Token
  next : Token
  behind : List Token
  faults : List Fault
deriving DecidableEq, Repr

namespace Window

/-- Moves on to the next token.  Where there is none to look ahead at, the text
ends. -/
def advance (w : Window) : Window :=
  { w with current := w.next, next := w.behind.headD w.next.ending, behind := w.behind.tail }

/-- A reader that stands at the first token of a list. -/
def ofTokens (ts : List Token) : Window :=
  advance (advance ⟨.bare .textEnd [], .bare .textEnd [], ts, []⟩)

/-- Reports a fault, if there is one. -/
def report (w : Window) (fault? : Option Fault) : Window :=
  { w with faults := w.faults ++ fault?.toList }

variable {w w' : Window} {f : Feed}

@[simp] theorem current_advance (w : Window) : w.advance.current = w.next := rfl

@[simp] theorem report_none (w : Window) : w.report none = w := by simp [report]

@[simp] theorem faults_advance (w : Window) : w.advance.faults = w.faults := rfl

theorem advance_report (w : Window) (r : Option Fault) :
    (w.report r).advance = w.advance.report r := rfl

/-! ## Moving on comes to an end -/

/-- How many tokens there are to move on to, but for ends of text that are made
up. -/
def ahead (w : Window) : Nat := w.behind.length + if w.next.kind = .textEnd then 0 else 1

/-- How many tokens there are to take, the current one included. -/
def remaining (w : Window) : Nat := w.ahead + if w.current.kind = .textEnd then 0 else 1

/-- Moving on uses up a token, or the text has ended. -/
theorem remaining_advance (w : Window) : w.advance.remaining ≤ w.ahead := by
  obtain ⟨c, n, _ | ⟨t, ts⟩, fs⟩ := w
  · simp [remaining, ahead, advance]
  · by_cases ht : t.kind = .textEnd <;> simp [remaining, ahead, advance, ht]

theorem remaining_advance_le (w : Window) : w.advance.remaining ≤ w.remaining :=
  Nat.le_trans w.remaining_advance (Nat.le_add_right _ _)

theorem remaining_advance_lt (h : w.current.kind ≠ .textEnd) :
    w.advance.remaining < w.remaining := by
  have hle := w.remaining_advance
  have hcurrent : w.remaining = w.ahead + 1 := by rw [remaining, if_neg h]
  omega

theorem ahead_advance_lt (h : w.next.kind ≠ .textEnd) : w.advance.ahead < w.ahead := by
  have hle := w.remaining_advance
  rw [remaining, current_advance, if_neg h] at hle
  omega

/-- Moves on until the current token ends a line. -/
def skipLine (w : Window) : Window :=
  if h : w.current.kind.isLineEnd then w
  else
    have := remaining_advance_lt (w := w) fun hend => h (by rw [hend]; rfl)
    w.advance.skipLine
termination_by w.remaining

theorem skipLine_of_isLineEnd (h : w.current.kind.isLineEnd) : w.skipLine = w := by
  rw [skipLine, dif_pos h]

theorem skipLine_of_not_isLineEnd (h : ¬ w.current.kind.isLineEnd) :
    w.skipLine = w.advance.skipLine := by
  rw [skipLine, dif_neg h]

theorem skipLine_report (w : Window) (r : Option Fault) :
    (w.report r).skipLine = w.skipLine.report r := by
  fun_induction skipLine w with
  | case1 w h => exact skipLine_of_isLineEnd h
  | case2 w h _ ih =>
    rw [skipLine_of_not_isLineEnd (by exact h), advance_report, ih]

theorem faults_skipLine (w : Window) : w.skipLine.faults = w.faults := by
  fun_induction skipLine w with
  | case1 => rfl
  | case2 w _ _ ih => exact ih

theorem remaining_skipLine_le (w : Window) : w.skipLine.remaining ≤ w.remaining := by
  fun_induction skipLine w with
  | case1 => exact Nat.le_refl _
  | case2 w _ _ ih => exact Nat.le_trans ih w.remaining_advance_le

/-- The line ends at the first token that ends one. -/
theorem exists_skipLine_eq (w : Window) :
    ∃ n, w.skipLine = advance^[n] w ∧ w.skipLine.current.kind.isLineEnd ∧
      ∀ m < n, ¬ (advance^[m] w).current.kind.isLineEnd := by
  fun_induction skipLine w with
  | case1 w h => exact ⟨0, rfl, h, by simp⟩
  | case2 w h _ ih =>
    obtain ⟨n, hn, hend, hline⟩ := ih
    refine ⟨n + 1, hn, hend, fun m hm => ?_⟩
    cases m with
    | zero => exact h
    | succ m => exact hline m (Nat.lt_of_succ_lt_succ hm)

/-! ## Windows and feeds -/

/-- The window moves over the tokens of the feed. -/
def At (w : Window) (f : Feed) : Prop := ∀ n, (advance^[n] w).current = (Feed.tail^[n] f).head

/-- The tokens that a window moves over. -/
def feed (w : Window) : Feed := ⟨w.current :: w.next :: w.behind, w.behind.getLastD w.next⟩

namespace At

theorem current (h : w.At f) : w.current = f.head := h 0

theorem advance (h : w.At f) : w.advance.At f.tail := fun n => h (n + 1)

theorem report (h : w.At f) (r : Option Fault) : (w.report r).At f := by
  intro n
  rw [← h n]
  induction n generalizing w f with
  | zero => rfl
  | succ n ih => exact ih h.advance

theorem skipLine (h : w.At f) : w.skipLine.At f.skipLine := by
  fun_induction Window.skipLine w generalizing f with
  | case1 w hend =>
    rw [h.current] at hend
    rwa [Feed.skipLine_of_isLineEnd hend]
  | case2 w hend _ ih =>
    rw [h.current] at hend
    rw [(Feed.Reaches.tail hend).skipLine_eq]
    exact ih h.advance

end At

theorem at_advance_advance (c n : Token) (ts : List Token) (fs : List Fault) :
    At (advance (advance ⟨c, n, ts, fs⟩)) ⟨ts, ts.getLastD n⟩ := by
  induction ts generalizing c n with
  | nil =>
    -- Behind the last token, window and feed stand still.
    intro m
    have hwindow : advance^[m] ⟨n.ending, n.ending, [], fs⟩ = ⟨n.ending, n.ending, [], fs⟩ :=
      Function.iterate_fixed rfl m
    have hfeed : Feed.tail^[m] ⟨[], n⟩ = ⟨[], n⟩ := Function.iterate_fixed rfl m
    show (advance^[m] ⟨n.ending, n.ending, [], fs⟩).current = (Feed.tail^[m] ⟨[], n⟩).head
    rw [hwindow, hfeed]
    rfl
  | cons t ts ih =>
    rw [List.getLastD_cons]
    rintro (_ | m)
    · rfl
    · exact ih n t m

theorem at_ofTokens (ts : List Token) : (ofTokens ts).At (.ofList ts) :=
  at_advance_advance _ _ ts []

theorem at_feed (w : Window) : w.At w.feed := by
  rintro (_ | _ | n)
  · rfl
  · rfl
  · exact at_advance_advance w.current w.next w.behind w.faults n

/-! ## Staying in a line -/

/-- Whether the second window is the first one, moved on over tokens that do not
end a line. -/
inductive Reaches : Window → Window → Prop where
  | refl (w : Window) : Reaches w w
  | step {w w' : Window} : ¬ w.next.kind.isLineEnd → Reaches w.advance w' → Reaches w w'

namespace Reaches

theorem trans {w₁ w₂ w₃ : Window} (h : w₁.Reaches w₂) (h' : w₂.Reaches w₃) : w₁.Reaches w₃ := by
  induction h with
  | refl => exact h'
  | step hnext _ ih => exact .step hnext (ih h')

theorem advance (h : ¬ w.next.kind.isLineEnd) : w.Reaches w.advance := .step h (.refl _)

/-- From everywhere in a line, its end is the same. -/
theorem skipLine_eq (h : w.Reaches w') (hw : ¬ w.current.kind.isLineEnd) :
    ¬ w'.current.kind.isLineEnd ∧ w'.skipLine = w.skipLine := by
  induction h with
  | refl w => exact ⟨hw, rfl⟩
  | @step w w' hnext _ ih =>
    rw [skipLine_of_not_isLineEnd hw]
    exact ih hnext

end Reaches

end Window

/-! ## The words of a line, one at a time -/

namespace Grammar

variable {f : Feed}

theorem words_of_isLineEnd (h : f.head.kind.isLineEnd) : words f = .ok ([], f) := by
  rw [words, Feed.line_of_isLineEnd h, Feed.skipLine_of_isLineEnd h]
  rfl

theorem words_of_illegal (h : f.head.kind = .illegal) :
    words f = .error (some (.illegalToken f.head)) := by
  have hend : ¬ f.head.kind.isLineEnd := by simp [h, Kind.isLineEnd]
  rw [words, Feed.line_of_not_isLineEnd hend, List.find?_cons_of_pos (by simp [h])]

theorem words_of_isPiece (h : f.head.IsPiece) :
    words f = (words >>= fun ws => pure (f.head :: ws)) f.tail := by
  have hrest := (Feed.Reaches.tail h.2).skipLine_eq
  rw [words, Feed.line_of_not_isLineEnd h.2, List.find?_cons_of_neg (by simp [h.1])]
  cases hfind : f.tail.line.find? (·.kind = .illegal) with
  | some t =>
    have hwords : words f.tail = .error (some (.illegalToken t)) := by rw [words, hfind]
    rw [bind_of_error hwords]
  | none =>
    have hwords : words f.tail = .ok (f.tail.line, f.tail.skipLine) := by rw [words, hfind]
    rw [bind_of_ok hwords, hrest]
    rfl

end Grammar

/-! ## Walks -/

/-- What a reader does until it has a result or gives up. -/
abbrev Walk := OptionT (StateM Window)

namespace Walk

/-- Moves on to the next token, which has to be of the given kind. -/
def expect (kind : Kind) : Walk Token := fun w =>
  if w.next.kind = kind then (some w.next, w.advance)
  else (none, w.report (some (.unexpectedToken kind w.next)))

/-- Moves on to the next token if it is of the given kind. -/
def accept? (kind : Kind) : Walk (Option Token) := fun w =>
  if w.next.kind = kind then (some (some w.next), w.advance) else (some none, w)

theorem ahead_expect_word_lt {w w' : Window} {t : Token}
    (h : expect .word w = (some t, w')) : w'.ahead < w.ahead := by
  unfold expect at h
  split at h
  · rename_i hkind
    cases h
    exact Window.ahead_advance_lt (by simp [hkind])
  · cases h

/-- Moves on over flags, and to the word behind them. -/
def flags (o : Options) : Walk (List Flag × Token) := fun w =>
  match h : expect .word w with
  | (none, w) => (none, w)
  | (some word, w) =>
    if (Flag.body? word.literal).isNone then (some ([], word), w)
    else
      match word.flag? with
      | none =>
        (none, w.report (if o.reportMalformedFlags then some (.malformedFlag word) else none))
      | some flag =>
        have := ahead_expect_word_lt h
        match flags o w with
        | (none, w) => (none, w)
        | (some (fs, source), w) => (some (flag :: fs, source), w)
termination_by w => w.ahead

/-- Moves on over the rest of the line, and gives up at an illegal token. -/
def words : Walk (List Token) := fun w =>
  if h : w.next.kind.isLineEnd then (some [], w)
  else if w.next.kind = .illegal then (none, w.advance.report (some (.illegalToken w.next)))
  else
    have := Window.ahead_advance_lt (w := w) fun hend => h (by rw [hend]; rfl)
    match words w.advance with
    | (none, w) => (none, w)
    | (some ts, w') => (some (w.next :: ts), w')
termination_by w => w.ahead

/-- `# value` -/
def comment (head : Token) : Walk Statement := do
  let value ← expect .word
  return .comment value.identifier (head.span.merge value.span)

/-- `FROM flags source`, with or without `AS stage` -/
def fromImage (o : Options) (head : Token) : Walk Statement := do
  let (fs, source) ← flags o
  match ← accept? (.keyword .asName) with
  | some _ =>
    let stage ← expect .word
    return .fromImage fs source.identifier stage.identifier (head.span.merge stage.span)
  | none => return .fromImage fs source.identifier none (head.span.merge source.span)

/-- `ARG name=value`, `ARG name value` or `ARG name` -/
def arg (head : Token) : Walk Statement := do
  let word ← expect .word
  match word.literal.cut? '=' with
  | some (name, value) =>
    return .arg word.identifier name.unescape (some value.unescape) none
      (head.span.merge word.span)
  | none =>
    match ← accept? .word with
    | some value =>
      return .arg word.identifier word.literal.unescape (some value.literal.unescape)
        value.identifier (head.span.merge value.span)
    | none =>
      return .arg word.identifier word.literal.unescape none none (head.span.merge word.span)

/-- `COPY flags source dest` -/
def copy (o : Options) (head : Token) : Walk Statement := do
  let (fs, source) ← flags o
  let dest ← expect .word
  return .copy fs source.identifier dest.identifier (head.span.merge dest.span)

/-- Any other keyword, with the words behind it -/
def other (keyword : Keyword) (head : Token) : Walk Statement := do
  let ws ← words
  return .other keyword (ws.map Token.word) (head.span.merge (ws.getLastD head).span)

/-- The statement that the token `head` introduces. -/
def statement (o : Options) (head : Token) : Walk Statement :=
  match head.kind with
  | .hash => comment head
  | .keyword .fromImage => fromImage o head
  | .keyword .arg => arg head
  | .keyword .copy => copy o head
  | .keyword k => other k head
  | _ => fun w => (none, w.report (some (.unexpectedStart head)))

variable {α β : Type} {w : Window} {f : Feed}

/-- What a walk comes to, and what a grammar gives: both have a result, and the
window is at the feed that is left, or both have none, and the window has
reported why. -/
inductive Follows (w : Window) : Option α × Window → Except Refusal (α × Feed) → Prop where
  | ok {a : α} {w' : Window} {rest : Feed} : w.Reaches w' → w'.advance.At rest →
      Follows w (some a, w') (.ok (a, rest))
  | error {refusal : Refusal} {w' : Window} : w.Reaches w' →
      Follows w (none, w'.report refusal) (.error refusal)

theorem Follows.of_reaches {w' : Window} {p : Option α × Window} {x : Except Refusal (α × Feed)}
    (hw : w.Reaches w') (h : Follows w' p x) : Follows w p x := by
  cases h with
  | ok hreach hrest => exact .ok (hw.trans hreach) hrest
  | error hreach => exact .error (hw.trans hreach)

theorem Follows.exists_of_some {a : α} {w' : Window} {x : Except Refusal (α × Feed)}
    (h : Follows w (some a, w') x) :
    ∃ rest, x = .ok (a, rest) ∧ w.Reaches w' ∧ w'.advance.At rest := by
  cases h with
  | ok hreach hrest => exact ⟨_, rfl, hreach, hrest⟩

theorem Follows.exists_of_none {w' : Window} {x : Except Refusal (α × Feed)}
    (h : Follows w (none, w') x) :
    ∃ refusal w₀, x = .error refusal ∧ w.Reaches w₀ ∧ w' = w₀.report refusal := by
  generalize hp : (none, w') = p at h
  cases h with
  | ok => cases hp
  | error hreach =>
    cases hp
    exact ⟨_, _, rfl, hreach, rfl⟩

/-- Behind every token, the walk does what the grammar does. -/
def Mirrors (m : Walk α) (g : Grammar α) : Prop :=
  ∀ ⦃w f⦄, w.advance.At f → Follows w (m w) (g f)

namespace Mirrors

theorem pure (a : α) : Mirrors (Pure.pure a) (Pure.pure a) := fun w _ h => .ok (.refl w) h

theorem bind {m : Walk α} {g : Grammar α} {k : α → Walk β} {l : α → Grammar β}
    (hmg : Mirrors m g) (hkl : ∀ a, Mirrors (k a) (l a)) : Mirrors (m >>= k) (g >>= l) := by
  intro w f h
  have hfollows := hmg h
  simp only [Bind.bind, OptionT.bind, OptionT.mk, StateT.bind, Except.bind]
  generalize m w = p at hfollows ⊢
  generalize g f = x at hfollows ⊢
  cases hfollows with
  | @ok a w' rest hreach hrest => exact (hkl a hrest).of_reaches hreach
  | error hreach => exact .error hreach

theorem expect {kind : Kind} (hkind : kind.isLineEnd = false) :
    Mirrors (expect kind) (Grammar.expect kind) := by
  intro w f h
  have hnext : w.next = f.head := h.current
  unfold Walk.expect Grammar.expect
  rw [hnext]
  split
  · rename_i hhead
    refine .ok (.advance ?_) h.advance
    simp [hnext, hhead, hkind]
  · exact .error (.refl w)

theorem accept? {kind : Kind} (hkind : kind.isLineEnd = false) :
    Mirrors (accept? kind) (Grammar.accept? kind) := by
  intro w f h
  have hnext : w.next = f.head := h.current
  unfold Walk.accept? Grammar.accept?
  rw [hnext]
  split
  · rename_i hhead
    refine .ok (.advance ?_) h.advance
    simp [hnext, hhead, hkind]
  · exact .ok (.refl w) h

theorem flags (o : Options) : Mirrors (flags o) (Grammar.expect .word >>= Grammar.flags o) := by
  intro w f h
  have hexpect : Follows w (Walk.expect .word w) (Grammar.expect .word f) := expect rfl h
  fun_induction Walk.flags o w generalizing f with
  | case1 w w' hword =>
    obtain ⟨refusal, w₀, hx, hreach, rfl⟩ := (hword ▸ hexpect).exists_of_none
    rw [Grammar.bind_of_error hx]
    exact .error hreach
  | case2 w word w' hword hbody =>
    obtain ⟨rest, hx, hreach, hrest⟩ := (hword ▸ hexpect).exists_of_some
    rw [Grammar.bind_of_ok hx, Grammar.flags_of_body?_isNone hbody]
    exact .ok hreach hrest
  | case3 w word w' hword hbody hflag =>
    obtain ⟨rest, hx, hreach, hrest⟩ := (hword ▸ hexpect).exists_of_some
    rw [Grammar.bind_of_ok hx, Grammar.flags_of_flag?_eq_none hbody hflag]
    exact .error hreach
  | case4 w word w' hword hbody flag hflag _ w'' hflags ih =>
    obtain ⟨rest, hx, hreach, hrest⟩ := (hword ▸ hexpect).exists_of_some
    obtain ⟨refusal, w₀, hx', hreach', rfl⟩ :=
      (hflags ▸ ih hrest (expect rfl hrest)).exists_of_none
    rw [Grammar.bind_of_ok hx, Grammar.flags_of_flag?_eq_some hflag, ← bind_assoc,
      Grammar.bind_of_error hx']
    exact .error (hreach.trans hreach')
  | case5 w word w' hword hbody flag hflag _ fs source w'' hflags ih =>
    obtain ⟨rest, hx, hreach, hrest⟩ := (hword ▸ hexpect).exists_of_some
    obtain ⟨rest', hx', hreach', hrest'⟩ :=
      (hflags ▸ ih hrest (expect rfl hrest)).exists_of_some
    rw [Grammar.bind_of_ok hx, Grammar.flags_of_flag?_eq_some hflag, ← bind_assoc,
      Grammar.bind_of_ok hx']
    exact .ok (hreach.trans hreach') hrest'

theorem words : Mirrors words Grammar.words := by
  intro w f h
  have hnext : w.next = f.head := h.current
  fun_induction Walk.words w generalizing f with
  | case1 w hend =>
    rw [Grammar.words_of_isLineEnd (hnext ▸ hend)]
    exact .ok (.refl w) h
  | case2 w hend hillegal =>
    rw [hnext, Grammar.words_of_illegal (hnext ▸ hillegal)]
    exact .error (.advance hend)
  | case3 w hend hillegal _ w' hwords ih =>
    have hpiece : f.head.IsPiece := hnext ▸ ⟨hillegal, hend⟩
    obtain ⟨refusal, w₀, hx, hreach, rfl⟩ :=
      (hwords ▸ ih h.advance h.advance.current).exists_of_none
    rw [Grammar.words_of_isPiece hpiece, Grammar.bind_of_error hx]
    exact .error (.step hend hreach)
  | case4 w hend hillegal _ ts w' hwords ih =>
    have hpiece : f.head.IsPiece := hnext ▸ ⟨hillegal, hend⟩
    obtain ⟨rest, hx, hreach, hrest⟩ :=
      (hwords ▸ ih h.advance h.advance.current).exists_of_some
    rw [Grammar.words_of_isPiece hpiece, Grammar.bind_of_ok hx, hnext]
    exact .ok (.step hend hreach) hrest

theorem comment (head : Token) : Mirrors (comment head) (Grammar.comment head) :=
  (expect rfl).bind fun _ => pure _

theorem fromImage (o : Options) (head : Token) :
    Mirrors (fromImage o head) (Grammar.fromImage o head) := by
  unfold Grammar.fromImage
  rw [← bind_assoc]
  refine (flags o).bind fun p => (accept? rfl).bind fun as? => ?_
  cases as? with
  | none => exact pure _
  | some _ => exact (expect rfl).bind fun _ => pure _

theorem arg (head : Token) : Mirrors (arg head) (Grammar.arg head) := by
  refine (expect rfl).bind fun word => ?_
  cases word.literal.cut? '=' with
  | some p => exact pure _
  | none =>
    refine (accept? rfl).bind fun value? => ?_
    cases value? <;> exact pure _

theorem copy (o : Options) (head : Token) : Mirrors (copy o head) (Grammar.copy o head) := by
  unfold Grammar.copy
  rw [← bind_assoc]
  exact (flags o).bind fun _ => (expect rfl).bind fun _ => pure _

theorem other (keyword : Keyword) (head : Token) :
    Mirrors (other keyword head) (Grammar.other keyword head) :=
  words.bind fun _ => pure _

/-- **Grammars are mirrored**: on every way out of a line, with a statement or
without one. -/
theorem statement (o : Options) (head : Token) :
    Mirrors (statement o head) (Grammar.statement o head) := by
  unfold Walk.statement Grammar.statement
  cases head.kind with
  | hash => exact comment head
  | keyword k =>
    cases k with
    | fromImage => exact fromImage o head
    | arg => exact arg head
    | copy => exact copy o head
    | _ => exact other _ head
  | _ => exact fun w _ _ => .error (.refl w)

end Mirrors

end Walk

end Recipe
