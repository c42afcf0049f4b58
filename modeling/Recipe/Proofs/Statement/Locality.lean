import Recipe.Proofs.Place.Move
import Recipe.Proofs.Statement.Steps

/-!
# What reading a line depends on

The reading of a line depends on the tokens of that line and on its end, and on
nothing behind them.  It depends on the places of those tokens only so far as
the places of what it gives do.  Of the end, only the faults know that find it
where a token is missing, so what else ends the line does not matter to its
statement.  All this is one theorem, `Feed.Alike.readLine`: where two feeds
stand in lines that agree up to a `Move` and up to their ends, so do the
readings.  `Feed.SameLine.readLine` says it for ends that agree as well.

The proof goes through the grammars combinator by combinator (`Grammar.Tracks`),
as the grammars themselves are built.
-/

namespace Recipe

/-- The second fault is the first one, but for places and ends: it shows the
token that `m` gives for the one the first fault shows, or `e'` where that is
`e`. -/
inductive Fault.Alike (m : Move) (e e' : Token) : Fault → Fault → Prop where
  /-- A token of the line stands where another kind is due. -/
  | token (kind : Kind) {t : Token} : ¬ t.kind.isLineEnd →
      Alike m e e' (.unexpectedToken kind t) (.unexpectedToken kind (m.token t))
  /-- The line ends where a token is due. -/
  | stop (kind : Kind) : Alike m e e' (.unexpectedToken kind e) (.unexpectedToken kind e')
  | malformedFlag (t : Token) : Alike m e e' (.malformedFlag t) (.malformedFlag (m.token t))
  | unexpectedStart (t : Token) : Alike m e e' (.unexpectedStart t) (.unexpectedStart (m.token t))
  | illegalToken (t : Token) : Alike m e e' (.illegalToken t) (.illegalToken (m.token t))

/-- Faults in lines whose ends agree differ in their places only. -/
theorem Fault.Alike.eq_fault {m : Move} {e : Token} {a b : Fault}
    (h : Alike m e (m.token e) a b) : b = m.fault a := by
  cases h <;> rfl

namespace Feed

/-- At an end of line, no tokens are in front of it. -/
theorem line_of_isLineEnd {f : Feed} (h : f.head.kind.isLineEnd) : f.line = [] := by
  obtain ⟨_ | ⟨t, ts⟩, u⟩ := f
  · rfl
  · exact List.takeWhile_cons_of_neg (by simpa using h)

/-- In front of the end of line, the line starts with the next token. -/
theorem line_of_not_isLineEnd {f : Feed} (h : ¬ f.head.kind.isLineEnd) :
    f.line = f.head :: f.tail.line := by
  obtain ⟨_ | ⟨t, ts⟩, u⟩ := f
  · exact absurd rfl h
  · exact List.takeWhile_cons_of_pos (by simpa using h)

theorem line_eq_nil_iff {f : Feed} : f.line = [] ↔ f.head.kind.isLineEnd := by
  refine ⟨fun h => ?_, line_of_isLineEnd⟩
  by_cases hf : f.head.kind.isLineEnd
  · exact hf
  · rw [line_of_not_isLineEnd hf] at h
    cases h

/-- `g` stands in a line like the one of `f`, which ends with `e'` where that of
`f` ends with `e`. -/
structure Alike (m : Move) (e e' : Token) (f g : Feed) : Prop where
  line : g.line = f.line.map m.token
  stop : f.skipLine.head = e
  stop' : g.skipLine.head = e'

namespace Alike

variable {m : Move} {e e' : Token} {f g : Feed}

theorem isLineEnd_head (h : f.Alike m e e' g) :
    g.head.kind.isLineEnd ↔ f.head.kind.isLineEnd := by
  rw [← line_eq_nil_iff, h.line, List.map_eq_nil_iff, line_eq_nil_iff]

/-- In front of their ends, both feeds go on with the same token. -/
theorem head (h : f.Alike m e e' g) (hf : ¬ f.head.kind.isLineEnd) : g.head = m.token f.head := by
  have hline := h.line
  rw [line_of_not_isLineEnd hf, line_of_not_isLineEnd (mt h.isLineEnd_head.mp hf),
    List.map_cons] at hline
  exact (List.cons.inj hline).1

/-- Kinds that do not end a line tell the feeds not apart. -/
theorem kind_head_iff (h : f.Alike m e e' g) {kind : Kind} (hkind : kind.isLineEnd = false) :
    g.head.kind = kind ↔ f.head.kind = kind := by
  by_cases hf : f.head.kind.isLineEnd
  · have hg := h.isLineEnd_head.mpr hf
    constructor
    · rintro rfl
      exact absurd hg (by simp [hkind])
    · rintro rfl
      exact absurd hf (by simp [hkind])
  · rw [h.head hf, m.kind_token]

/-- A token that does not end the line can be taken from both feeds. -/
theorem tail (h : f.Alike m e e' g) (hf : ¬ f.head.kind.isLineEnd) :
    f.tail.Alike m e e' g.tail := by
  have hg : ¬ g.head.kind.isLineEnd := mt h.isLineEnd_head.mp hf
  constructor
  · have hline := h.line
    rw [line_of_not_isLineEnd hf, line_of_not_isLineEnd hg, List.map_cons] at hline
    exact (List.cons.inj hline).2
  · rw [← (Reaches.tail hf).skipLine_eq]
    exact h.stop
  · rw [← (Reaches.tail hg).skipLine_eq]
    exact h.stop'

/-- The ends of the two lines are lines without tokens. -/
theorem skipLine (h : f.Alike m e e' g) : f.skipLine.Alike m e e' g.skipLine where
  line := by
    rw [line_of_isLineEnd f.isLineEnd_head_skipLine, line_of_isLineEnd g.isLineEnd_head_skipLine]
    rfl
  stop := by
    rw [skipLine_of_isLineEnd f.isLineEnd_head_skipLine]
    exact h.stop
  stop' := by
    rw [skipLine_of_isLineEnd g.isLineEnd_head_skipLine]
    exact h.stop'

/-- Where a token is due, what stands there instead is alike. -/
theorem unexpectedToken (h : f.Alike m e e' g) (kind : Kind) :
    Fault.Alike m e e' (.unexpectedToken kind f.head) (.unexpectedToken kind g.head) := by
  by_cases hf : f.head.kind.isLineEnd
  · have hstop := h.stop
    have hstop' := h.stop'
    rw [skipLine_of_isLineEnd hf] at hstop
    rw [skipLine_of_isLineEnd (h.isLineEnd_head.mpr hf)] at hstop'
    rw [hstop, hstop']
    exact .stop kind
  · rw [h.head hf]
    exact .token kind hf

end Alike

/-- `g` stands in a line like the one of `f`, and has its end where `m` puts
that of `f`. -/
structure SameLine (m : Move) (f g : Feed) : Prop where
  line : g.line = f.line.map m.token
  stop : g.skipLine.head = m.token f.skipLine.head

namespace SameLine

variable {m : Move} {f g : Feed}

theorem alike (h : SameLine m f g) :
    f.Alike m f.skipLine.head (m.token f.skipLine.head) g where
  line := h.line
  stop := rfl
  stop' := h.stop

theorem head (h : SameLine m f g) : g.head = m.token f.head := by
  by_cases hf : f.head.kind.isLineEnd
  · simpa only [skipLine_of_isLineEnd hf,
      skipLine_of_isLineEnd (h.alike.isLineEnd_head.mpr hf)] using h.stop
  · exact h.alike.head hf

theorem kind_head (h : SameLine m f g) : g.head.kind = f.head.kind := by
  rw [h.head, Move.kind_token]

end SameLine

end Feed

namespace Grammar

variable {α β γ δ : Type} {m : Move} {e e' : Token}

/-- The second outcome is the first one, but for places and ends: both give
parts that correspond by `ρ` and stop in lines that are alike, or both refuse
alike. -/
inductive Agrees (m : Move) (e e' : Token) (ρ : α → β) :
    Except Refusal (α × Feed) → Except Refusal (β × Feed) → Prop where
  | ok (a : α) {f g : Feed} : f.Alike m e e' g → Agrees m e e' ρ (.ok (a, f)) (.ok (ρ a, g))
  | error {r r' : Refusal} : Option.Rel (Fault.Alike m e e') r r' →
      Agrees m e e' ρ (.error r) (.error r')

namespace Agrees

/-- Outcomes that correspond stay so under what is done with them. -/
theorem bind {ρ : α → β} {σ : γ → δ} {g : Grammar α} {h : Grammar β} {k : α → Grammar γ}
    {l : β → Grammar δ} {f f' : Feed} (hgh : Agrees m e e' ρ (g f) (h f'))
    (hkl : ∀ a r r', g f = .ok (a, r) → r.Alike m e e' r' →
      Agrees m e e' σ (k a r) (l (ρ a) r')) :
    Agrees m e e' σ ((g >>= k) f) ((h >>= l) f') := by
  simp only [Bind.bind, StateT.bind, Except.bind]
  generalize g f = x at hgh hkl ⊢
  generalize h f' = y at hgh ⊢
  cases hgh with
  | ok a hrest => exact hkl a _ _ rfl hrest
  | error hr => exact .error hr

end Agrees

/-- The second grammar reads lines as the first one reads lines that are
alike. -/
def Tracks (m : Move) (e e' : Token) (ρ : α → β) (g : Grammar α) (h : Grammar β) : Prop :=
  ∀ ⦃f f'⦄, f.Alike m e e' f' → Agrees m e e' ρ (g f) (h f')

namespace Tracks

theorem pure {ρ : α → β} {a : α} {b : β} (h : b = ρ a) :
    Tracks m e e' ρ (Pure.pure a) (Pure.pure b) :=
  fun _ _ hline => h ▸ .ok a hline

theorem bind {ρ : α → β} {σ : γ → δ} {g : Grammar α} {h : Grammar β} {k : α → Grammar γ}
    {l : β → Grammar δ} (hgh : Tracks m e e' ρ g h)
    (hkl : ∀ a, Tracks m e e' σ (k a) (l (ρ a))) : Tracks m e e' σ (g >>= k) (h >>= l) :=
  fun _ _ hline => (hgh hline).bind fun a _ _ _ hrest => hkl a hrest

theorem expect {kind : Kind} (hkind : kind.isLineEnd = false) :
    Tracks m e e' m.token (expect kind) (expect kind) := by
  intro f f' hline
  unfold Grammar.expect
  by_cases hhead : f.head.kind = kind
  · have hend : ¬ f.head.kind.isLineEnd := by simp [hhead, hkind]
    rw [if_pos hhead, if_pos ((hline.kind_head_iff hkind).mpr hhead), hline.head hend]
    exact .ok f.head (hline.tail hend)
  · rw [if_neg hhead, if_neg (mt (hline.kind_head_iff hkind).mp hhead)]
    exact .error (.some (hline.unexpectedToken kind))

theorem accept? {kind : Kind} (hkind : kind.isLineEnd = false) :
    Tracks m e e' (Option.map m.token) (accept? kind) (accept? kind) := by
  intro f f' hline
  unfold Grammar.accept?
  by_cases hhead : f.head.kind = kind
  · have hend : ¬ f.head.kind.isLineEnd := by simp [hhead, hkind]
    rw [if_pos hhead, if_pos ((hline.kind_head_iff hkind).mpr hhead), hline.head hend]
    exact .ok (some f.head) (hline.tail hend)
  · rw [if_neg hhead, if_neg (mt (hline.kind_head_iff hkind).mp hhead)]
    exact .ok none hline

/-- Where the flags of a line and the word behind them go. -/
def flagsMove (m : Move) (p : List Flag × Token) : List Flag × Token :=
  (p.1.map m.flag, m.token p.2)

theorem flags (o : Options) (word : Token) :
    Tracks m e e' (flagsMove m) (flags o word) (flags o (m.token word)) := by
  intro f
  induction word, f using flags_induction with
  | stop word f hbody =>
    intro f' hline
    rw [flags_of_body?_isNone hbody, flags_of_body?_isNone (by exact hbody)]
    exact .ok ([], word) hline
  | stray word f hbody hflag =>
    intro f' hline
    have hflag' : (m.token word).flag? = none := by rw [m.flag?_token, hflag]; rfl
    rw [flags_of_flag?_eq_none hbody hflag, flags_of_flag?_eq_none (by exact hbody) hflag']
    cases o.reportMalformedFlags
    · exact .error .none
    · exact .error (.some (.malformedFlag word))
  | flag word f flag hflag ih =>
    intro f' hline
    have hflag' : (m.token word).flag? = some (m.flag flag) := by
      rw [m.flag?_token, hflag]
      rfl
    rw [flags_of_flag?_eq_some hflag, flags_of_flag?_eq_some hflag']
    apply (expect rfl hline).bind
    intro next r r' hnext hr
    apply (ih next r hnext hr).bind
    intro p s s' _ hs
    exact .ok (flag :: p.1, p.2) hs

theorem words : Tracks m e e' (List.map m.token) words words := by
  intro f f' hline
  have hfind : (f.line.map m.token).find? (·.kind = .illegal) =
      (f.line.find? (·.kind = .illegal)).map m.token := by
    rw [List.find?_map]
    rfl
  unfold Grammar.words
  rw [hline.line, hfind]
  cases f.line.find? (·.kind = .illegal) with
  | none => exact .ok f.line hline.skipLine
  | some t => exact .error (.some (.illegalToken t))

theorem comment (head : Token) :
    Tracks m e e' m.statement (comment head) (comment (m.token head)) :=
  (expect rfl).bind fun value => .pure (by rw [m.identifier_token, m.merge_token]; rfl)

theorem fromImage (o : Options) (head : Token) :
    Tracks m e e' m.statement (fromImage o head) (fromImage o (m.token head)) := by
  refine (expect rfl).bind fun word => (flags o word).bind ?_
  rintro ⟨fs, source⟩
  apply (accept? rfl).bind
  intro as?
  cases as? with
  | none =>
    apply Tracks.pure
    show Statement.fromImage (fs.map m.flag) (m.token source).identifier none
      ((m.token head).span.merge (m.token source).span) = _
    rw [m.identifier_token, m.merge_token]
    rfl
  | some _ =>
    refine (expect rfl).bind fun stage => .pure ?_
    show Statement.fromImage (fs.map m.flag) (m.token source).identifier
      (some (m.token stage).identifier) ((m.token head).span.merge (m.token stage).span) = _
    rw [m.identifier_token, m.identifier_token, m.merge_token]
    rfl

theorem arg (head : Token) : Tracks m e e' m.statement (arg head) (arg (m.token head)) := by
  apply (expect rfl).bind
  intro word
  rw [m.literal_token]
  cases word.literal.cut? '=' with
  | some p => exact .pure (by rw [m.identifier_token, m.merge_token]; rfl)
  | none =>
    apply (accept? rfl).bind
    intro value?
    cases value? with
    | none => exact .pure (by rw [m.identifier_token, m.merge_token]; rfl)
    | some value =>
      exact .pure (by rw [m.identifier_token, m.identifier_token, m.merge_token]; rfl)

theorem copy (o : Options) (head : Token) :
    Tracks m e e' m.statement (copy o head) (copy o (m.token head)) := by
  refine (expect rfl).bind fun word => (flags o word).bind ?_
  rintro ⟨fs, source⟩
  refine (expect rfl).bind fun dest => .pure ?_
  show Statement.copy (fs.map m.flag) (m.token source).identifier (m.token dest).identifier
    ((m.token head).span.merge (m.token dest).span) = _
  rw [m.identifier_token, m.identifier_token, m.merge_token]
  rfl

theorem other (keyword : Keyword) (head : Token) :
    Tracks m e e' m.statement (other keyword head) (other keyword (m.token head)) := by
  refine words.bind fun ws => .pure ?_
  have hlast : (ws.map m.token).getLastD (m.token head) = m.token (ws.getLastD head) := by
    rw [List.getLastD_map]
  rw [hlast, m.merge_token, List.map_map, Move.statement, List.map_map]
  rfl

theorem statement (o : Options) (head : Token) :
    Tracks m e e' m.statement (statement o head) (statement o (m.token head)) := by
  unfold Grammar.statement
  rw [m.kind_token]
  split
  · exact comment head
  · exact fromImage o head
  · exact arg head
  · exact copy o head
  · exact other _ head
  · exact fun _ _ _ => .error (.some (.unexpectedStart head))

end Tracks

end Grammar

namespace Feed

/-- **Lines that are alike are read alike**: where the tokens of two lines agree
but for places, their statements agree but for places, and so do their faults,
but for those that find the end of the line. -/
theorem Alike.readLine {m : Move} {e e' : Token} {f g : Feed} (h : f.Alike m e e' g)
    (hf : ¬ f.head.kind.isLineEnd) (o : Options) :
    (g.readLine o).statement? = (f.readLine o).statement?.map m.statement ∧
      Option.Rel (Fault.Alike m e e') (f.readLine o).fault? (g.readLine o).fault? := by
  have hhead := h.head hf
  have hkind : g.head.kind = f.head.kind := by rw [hhead, m.kind_token]
  unfold Feed.readLine
  rw [hkind, if_neg (Kind.ne_lineFeed hf), if_neg (Kind.ne_lineFeed hf)]
  split
  · exact ⟨rfl, .none⟩
  · have hagree := Grammar.Tracks.statement o f.head (h.tail hf)
    rw [hhead]
    generalize Grammar.statement o f.head f.tail = x at hagree ⊢
    generalize Grammar.statement o (m.token f.head) g.tail = y at hagree ⊢
    cases hagree with
    | error hr => exact ⟨rfl, hr⟩
    | @ok s rest rest' hrest =>
      simp only [hrest.isLineEnd_head]
      split
      · exact ⟨rfl, .none⟩
      · exact ⟨rfl, .some (hrest.unexpectedToken .lineFeed)⟩

/-- Lines whose ends agree as well are read alike but for places. -/
theorem SameLine.readLine {m : Move} {f g : Feed} (h : f.SameLine m g) (o : Options) :
    (g.readLine o).statement? = (f.readLine o).statement?.map m.statement ∧
      (g.readLine o).fault? = (f.readLine o).fault?.map m.fault := by
  by_cases hf : f.head.kind.isLineEnd
  · unfold Feed.readLine
    rw [h.kind_head]
    split
    · exact ⟨rfl, rfl⟩
    · rename_i hfeed
      have hend : f.head.kind = .textEnd := by simpa [Kind.isLineEnd, hfeed] using hf
      split
      · exact ⟨rfl, rfl⟩
      · rw [Grammar.statement_of_textEnd hend, h.head,
          Grammar.statement_of_textEnd (by rw [m.kind_token, hend])]
        exact ⟨rfl, rfl⟩
  · obtain ⟨hstatement, hfault⟩ := h.alike.readLine hf o
    refine ⟨hstatement, ?_⟩
    generalize (f.readLine o).fault? = a at hfault ⊢
    generalize (g.readLine o).fault? = b at hfault ⊢
    cases hfault with
    | none => rfl
    | some hfault => exact congrArg some hfault.eq_fault

end Feed

end Recipe
