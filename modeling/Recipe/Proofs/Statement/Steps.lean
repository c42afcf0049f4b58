import Recipe.Proofs.Token.Class
import Recipe.Statement.Reading

/-!
# Grammars, one token at a time

Where the line of a feed ends, and how a grammar takes tokens from a feed that
starts with them.  These equations open the grammars of statements and the
reading of a line; nothing else has to unfold them.
-/

namespace Recipe

namespace Token

/-- Whether no token ends a line. -/
def InLine (ws : List Token) : Prop := ∀ t ∈ ws, ¬ t.kind.isLineEnd

@[simp] theorem inLine_nil : InLine [] := by simp [InLine]

@[simp] theorem inLine_cons {t : Token} {ws : List Token} :
    InLine (t :: ws) ↔ ¬ t.kind.isLineEnd ∧ InLine ws := by
  simp [InLine]

end Token

namespace Feed

open Token (InLine)

variable {ws us : List Token} {e u : Token}

/-- The feed from the end of a line on. -/
theorem skipLine_append (hws : InLine ws) (he : e.kind.isLineEnd) :
    skipLine ⟨ws ++ e :: us, u⟩ = ⟨e :: us, u⟩ := by
  have hdrop : (ws ++ e :: us).dropWhile (fun t => !t.kind.isLineEnd) =
      (e :: us).dropWhile (fun t => !t.kind.isLineEnd) :=
    List.dropWhile_append_of_pos (by simpa [InLine] using hws)
  simp only [skipLine, hdrop, Feed.mk.injEq, and_true]
  exact List.dropWhile_cons_of_neg (by simp [he])

theorem line_append (hws : InLine ws) (he : e.kind.isLineEnd) : line ⟨ws ++ e :: us, u⟩ = ws := by
  have htake : (ws ++ e :: us).takeWhile (fun t => !t.kind.isLineEnd) =
      ws ++ (e :: us).takeWhile (fun t => !t.kind.isLineEnd) :=
    List.takeWhile_append_of_pos (by simpa [InLine] using hws)
  have hend : (e :: us).takeWhile (fun t => !t.kind.isLineEnd) = [] :=
    List.takeWhile_cons_of_neg (by simp [he])
  rw [line, htake, hend, List.append_nil]

end Feed

namespace Grammar

variable {α β : Type} {g : Grammar α} {k : α → Grammar β} {f r : Feed} {a : α} {e : Refusal}
variable {kind : Kind} {t u : Token} {ts : List Token}

/-- A grammar goes on from where its first part has stopped. -/
theorem bind_of_ok (h : g f = .ok (a, r)) : (g >>= k) f = k a r := by
  simp only [Bind.bind, StateT.bind, Except.bind, h]

/-- A refusal of the first part is one of the whole. -/
theorem bind_of_error (h : g f = .error e) : (g >>= k) f = .error e := by
  simp only [Bind.bind, StateT.bind, Except.bind, h]

/-- What the whole gives, its second part gives with what the first one does. -/
theorem exists_of_bind {b : β} {rest : Feed} (h : (g >>= k) f = .ok (b, rest)) :
    ∃ a r, g f = .ok (a, r) ∧ k a r = .ok (b, rest) := by
  cases hg : g f with
  | error e => rw [bind_of_error hg] at h; cases h
  | ok p => exact ⟨p.1, p.2, rfl, (bind_of_ok hg).symm.trans h⟩

theorem expect_cons (h : t.kind = kind) : expect kind ⟨t :: ts, u⟩ = .ok (t, ⟨ts, u⟩) := by
  rw [expect, Feed.head_mk_cons, if_pos h]
  rfl

theorem expect_cons_of_ne (h : t.kind ≠ kind) :
    expect kind ⟨t :: ts, u⟩ = .error (some (.unexpectedToken kind t)) := by
  rw [expect, Feed.head_mk_cons, if_neg h]

theorem accept?_cons (h : t.kind = kind) :
    accept? kind ⟨t :: ts, u⟩ = .ok (some t, ⟨ts, u⟩) := by
  rw [accept?, Feed.head_mk_cons, if_pos h]
  rfl

theorem accept?_cons_of_ne (h : t.kind ≠ kind) :
    accept? kind ⟨t :: ts, u⟩ = .ok (none, ⟨t :: ts, u⟩) := by
  rw [accept?, Feed.head_mk_cons, if_neg h]

/-! ## The flags of a line, one at a time -/

/-- A word without hyphens in front of it ends the flags. -/
theorem flags_of_body?_isNone {o : Options} {word : Token}
    (h : (Flag.body? word.literal).isNone) : flags o word = pure ([], word) := by
  funext f
  rw [flags, if_pos h]
  rfl

/-- A word with hyphens in front of it has to be a flag. -/
theorem flags_of_flag?_eq_none {o : Options} {word : Token}
    (h : ¬ (Flag.body? word.literal).isNone) (hflag : word.flag? = none) :
    flags o word =
      fun _ => .error (if o.reportMalformedFlags then some (.malformedFlag word) else none) := by
  funext f
  rw [flags, if_neg h, hflag]

theorem body?_of_flag? {word : Token} {flag : Flag} (h : word.flag? = some flag) :
    ¬ (Flag.body? word.literal).isNone := by
  intro hbody
  rw [Option.isNone_iff_eq_none] at hbody
  simp [Token.flag?, hbody] at h

/-- Behind a flag there are further ones and a word. -/
theorem flags_of_flag?_eq_some {o : Options} {word : Token} {flag : Flag}
    (h : word.flag? = some flag) :
    flags o word = do
      let next ← expect .word
      let p ← flags o next
      return (flag :: p.1, p.2) := by
  funext f
  rw [flags, if_neg (body?_of_flag? h), h]
  simp only
  split
  · rename_i hnext
    rw [bind_of_error hnext]
  · rename_i next rest hnext
    rw [bind_of_ok hnext]
    split
    · rename_i hrest
      rw [bind_of_error hrest]
    · rename_i hrest
      rw [bind_of_ok hrest]
      rfl

/-- Induction over the flags of a line: each one takes a word from the feed. -/
@[elab_as_elim]
theorem flags_induction {motive : Token → Feed → Prop}
    (stop : ∀ word f, (Flag.body? word.literal).isNone → motive word f)
    (stray : ∀ word f, ¬ (Flag.body? word.literal).isNone → word.flag? = none → motive word f)
    (flag : ∀ word f flag, word.flag? = some flag →
      (∀ next rest, expect .word f = .ok (next, rest) → motive next rest) → motive word f)
    (word : Token) (f : Feed) : motive word f := by
  induction hn : f.tokens.length using Nat.strongRecOn generalizing f word with
  | ind n ih =>
    subst hn
    by_cases hbody : (Flag.body? word.literal).isNone
    · exact stop word f hbody
    · cases hflag : word.flag? with
      | none => exact stray word f hbody hflag
      | some fl =>
        refine flag word f fl hflag fun next rest hnext => ?_
        exact ih _ (length_expect_word_lt hnext) next rest rfl

/-! ## The grammar of a line by its head -/

section Head

variable {o : Options} {h : Token}

theorem statement_of_hash (hh : h.kind = .hash) : statement o h = comment h := by
  rw [statement, hh]

theorem statement_of_fromImage (hh : h.kind = .keyword .fromImage) :
    statement o h = fromImage o h := by
  rw [statement, hh]

theorem statement_of_arg (hh : h.kind = .keyword .arg) : statement o h = arg h := by
  rw [statement, hh]

theorem statement_of_copy (hh : h.kind = .keyword .copy) : statement o h = copy o h := by
  rw [statement, hh]

theorem statement_of_other {k : Keyword} (hh : h.kind = .keyword k) (hother : h.IsOther) :
    statement o h = other k h := by
  obtain ⟨hfrom, harg, hcopy⟩ := (Token.isOther_iff hh).mp hother
  rw [statement, hh]
  cases k <;> first | rfl | contradiction

theorem statement_of_unexpected (hhash : h.kind ≠ .hash) (hkeyword : ∀ k, h.kind ≠ .keyword k) :
    statement o h = fun _ => .error (some (.unexpectedStart h)) := by
  unfold statement
  cases hkind : h.kind with
  | hash => exact absurd hkind hhash
  | keyword k => exact absurd hkind (hkeyword k)
  | _ => rfl

/-- The kind of its head chooses the grammar of a line. -/
theorem statement_cases (o : Options) (h : Token) :
    h.kind = .hash ∧ statement o h = comment h ∨
      h.kind = .keyword .fromImage ∧ statement o h = fromImage o h ∨
      h.kind = .keyword .arg ∧ statement o h = arg h ∨
      h.kind = .keyword .copy ∧ statement o h = copy o h ∨
      (∃ k, h.kind = .keyword k ∧ h.IsOther ∧ statement o h = other k h) ∨
      (h.kind ≠ .hash ∧ (∀ k, h.kind ≠ .keyword k) ∧
        statement o h = fun _ => .error (some (.unexpectedStart h))) := by
  cases hh : h.kind with
  | hash => exact .inl ⟨rfl, statement_of_hash hh⟩
  | keyword k =>
    cases k with
    | fromImage => exact .inr (.inl ⟨rfl, statement_of_fromImage hh⟩)
    | arg => exact .inr (.inr (.inl ⟨rfl, statement_of_arg hh⟩))
    | copy => exact .inr (.inr (.inr (.inl ⟨rfl, statement_of_copy hh⟩)))
    | _ =>
      have hother : h.IsOther := (Token.isOther_iff hh).mpr (by simp)
      exact .inr (.inr (.inr (.inr (.inl ⟨_, rfl, hother, statement_of_other hh hother⟩))))
  | _ =>
    have hunexpected := statement_of_unexpected (o := o) (h := h) (by simp [hh]) (by simp [hh])
    exact .inr (.inr (.inr (.inr (.inr ⟨by simp, by simp, hunexpected⟩))))

end Head

end Grammar

/-! ## A line that is read by the grammar of its head -/

theorem Kind.ne_lineFeed {k : Kind} (h : ¬ k.isLineEnd) : k ≠ .lineFeed := by
  rintro rfl
  exact h rfl

theorem Options.drops_strict (k : Kind) : strict.drops k = false := by
  unfold drops
  split <;> rfl

namespace Feed

/-- What a line is read as, from what its grammar makes of it. -/
def reading (f : Feed) : Except Refusal (Statement × Feed) → Reading
  | .error refusal => ⟨none, refusal, f.skipLine⟩
  | .ok (s, rest) =>
    if rest.head.kind.isLineEnd then ⟨some s, none, rest⟩
    else ⟨some s, some (.unexpectedToken .lineFeed rest.head), rest.skipLine⟩

variable {o : Options} {f : Feed}

/-- A line that is neither blank nor dropped unread is left to its grammar. -/
theorem readLine_eq_reading (hfeed : f.head.kind ≠ .lineFeed) (hdrops : ¬ o.drops f.head.kind) :
    f.readLine o = f.reading (Grammar.statement o f.head f.tail) := by
  rw [readLine, if_neg hfeed, if_neg hdrops]
  rfl

theorem readLine_cons {h u : Token} {ts : List Token} (hh : ¬ h.kind.isLineEnd)
    (hdrops : ¬ o.drops h.kind) :
    readLine o ⟨h :: ts, u⟩ = reading ⟨h :: ts, u⟩ (Grammar.statement o h ⟨ts, u⟩) :=
  readLine_eq_reading (f := ⟨h :: ts, u⟩) (Kind.ne_lineFeed hh) hdrops

/-- A strict reader leaves every line that is not blank to its grammar. -/
theorem readLine_strict {h u : Token} {ts : List Token} (hh : ¬ h.kind.isLineEnd) :
    readLine .strict ⟨h :: ts, u⟩ =
      reading ⟨h :: ts, u⟩ (Grammar.statement .strict h ⟨ts, u⟩) :=
  readLine_cons hh (by simp [Options.drops_strict])

/-- A line that yields a statement has been left to its grammar. -/
theorem exists_of_readLine {s : Statement} (hread : (f.readLine o).statement? = some s) :
    ¬ o.drops f.head.kind ∧
      ∃ rest, Grammar.statement o f.head f.tail = .ok (s, rest) ∧
        f.readLine o = f.reading (.ok (s, rest)) := by
  by_cases hfeed : f.head.kind = .lineFeed
  · rw [readLine, if_pos hfeed] at hread
    cases hread
  by_cases hdrops : o.drops f.head.kind
  · rw [readLine, if_neg hfeed, if_pos hdrops] at hread
    cases hread
  refine ⟨hdrops, ?_⟩
  rw [readLine_eq_reading hfeed hdrops] at hread ⊢
  cases hstatement : Grammar.statement o f.head f.tail with
  | error refusal =>
    rw [hstatement] at hread
    cases hread
  | ok p =>
    obtain ⟨s', rest⟩ := p
    have hs : s' = s := by
      rw [hstatement, reading] at hread
      split at hread <;> exact Option.some.inj hread
    exact ⟨rest, by rw [hs], by rw [hs]⟩

end Feed

end Recipe
