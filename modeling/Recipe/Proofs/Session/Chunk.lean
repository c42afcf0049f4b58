import Recipe.Proofs.Line.Recovery
import Recipe.Proofs.Token.Joined
import Recipe.Session

/-!
# The chunks of a session

A session keeps the lines of a chunk that goes on and gives them, with the line
that ends the chunk, as one text (`Session.Holding`).  To the session a line
goes on if a backslash is the last thing in it but for blanks.  The reader of a
recipe asks for more: it joins two lines where the backslash is the very end of
the line, and otherwise goes on only within quotes.  Where the two disagree, a
chunk has a line feed among its tokens, and is read as more than one line
(`Session.lineFeed_notMem_chunk_iff`).

## How the proof goes

One step: what a session holds decides on its answer and on what it holds then
(`Session.Holding.push_cases`).  A run: behind any lines a session holds the
last ones of them (`Session.exists_holding_after`).  Which line feeds of a text
are tokens has been said of texts as such
(`Token.exists_lineFeed_mem_ofSource_iff`).
-/

namespace Recipe

open Lexeme (JoinsNext)

namespace Session

variable {s s' : Session} {group lines : List Text} {line c : Text} {o : Options}

/-- Lines, each with its line feed. -/
def fed (lines : List Text) : Text := lines.flatMap (· ++ ['\n'])

theorem fed_cons (line : Text) (lines : List Text) :
    fed (line :: lines) = line ++ '\n' :: fed lines := by
  rw [fed, List.flatMap_cons, List.append_assoc]
  rfl

theorem fed_concat (lines : List Text) (line : Text) :
    fed (lines ++ [line]) = fed lines ++ line ++ ['\n'] := by
  rw [fed, List.flatMap_append, List.flatMap_singleton, ← List.append_assoc]
  rfl

theorem fed_eq_nil_iff : fed lines = [] ↔ lines = [] := by
  cases lines <;> simp [fed]

/-- The session behind some lines. -/
def after (s : Session) (lines : List Text) : Session :=
  lines.foldl (fun s line => (s.push line).2) s

theorem after_concat (s : Session) (lines : List Text) (line : Text) :
    s.after (lines ++ [line]) = ((s.after lines).push line).2 := by
  rw [after, List.foldl_append]
  rfl

/-! ## What a session does with a line -/

theorem command?_eq_some_iff {a : Answer} :
    command? line = some a ↔ (Text.trim line = "exit".toList ∧ a = .exit) ∨
      (Text.trim line = ":tokens".toList ∧ a = .toggleTokens) := by
  by_cases hexit : Text.trim line = "exit".toList
  · -- No line is both commands.
    have htokens : Text.trim line ≠ ":tokens".toList := by
      rw [hexit]
      decide
    rw [command?, if_pos hexit]
    constructor
    · rintro ⟨⟩
      exact .inl ⟨hexit, rfl⟩
    · rintro (⟨-, rfl⟩ | ⟨hline, -⟩)
      · rfl
      · exact absurd hline htokens
  · rw [command?, if_neg hexit]
    constructor
    · intro h
      split at h
      · rename_i htokens
        exact .inr ⟨htokens, (Option.some.inj h).symm⟩
      · cases h
    · rintro (⟨hline, -⟩ | ⟨hline, rfl⟩)
      · exact absurd hline hexit
      · exact if_pos hline

/-- Between chunks a session answers the two commands; any other line it keeps
or, if the line does not go on, gives behind all that it holds. -/
theorem push_eq_cases (s : Session) (line : Text) :
    (¬ s.isContinuing ∧ Text.trim line = "exit".toList ∧ s.push line = (.exit, s)) ∨
      (¬ s.isContinuing ∧ Text.trim line = ":tokens".toList ∧
        s.push line = (.toggleTokens, { s with showTokens := !s.showTokens })) ∨
      ((s.isContinuing ∨ command? line = none) ∧ goesOn line ∧
        s.push line = (.incomplete, { s with pending := s.pending ++ line ++ ['\n'] })) ∨
      ((s.isContinuing ∨ command? line = none) ∧ ¬ goesOn line ∧
        s.push line = (.chunk (s.pending ++ line), { s with pending := [] })) := by
  by_cases hcontinuing : s.isContinuing
  · by_cases hline : goesOn line
    · exact .inr (.inr (.inl ⟨.inl hcontinuing, hline, by simp [push, extend, *]⟩))
    · exact .inr (.inr (.inr ⟨.inl hcontinuing, hline, by simp [push, extend, *]⟩))
  · cases hcommand : command? line with
    | some a =>
      rcases command?_eq_some_iff.mp hcommand with ⟨hline, rfl⟩ | ⟨hline, rfl⟩
      · exact .inl ⟨hcontinuing, hline, by simp [push, *]⟩
      · exact .inr (.inl ⟨hcontinuing, hline, by simp [push, *]⟩)
    | none =>
      by_cases hline : goesOn line
      · exact .inr (.inr (.inl ⟨.inr rfl, hline, by simp [push, extend, *]⟩))
      · exact .inr (.inr (.inr ⟨.inr rfl, hline, by simp [push, extend, *]⟩))

/-! ## What a session holds -/

/-- The session holds lines that go on, and nothing else. -/
structure Holding (s : Session) (group : List Text) : Prop where
  pending : s.pending = fed group
  forall_goesOn : ∀ line ∈ group, goesOn line

namespace Holding

theorem start (o : Options) (showTokens : Bool) : (start o showTokens).Holding [] where
  pending := rfl
  forall_goesOn := by simp

theorem isContinuing_iff (h : s.Holding group) : s.isContinuing ↔ group ≠ [] := by
  simp [isContinuing, h.pending, fed_eq_nil_iff]

/-- **What a session does with a line**: it answers a command and holds nothing
still, or keeps the line, or gives all lines it holds with this one at the
end. -/
theorem push_cases (h : s.Holding group) (line : Text) :
    (group = [] ∧ command? line = some (s.push line).1 ∧ (s.push line).2.Holding []) ∨
      (goesOn line ∧ (s.push line).1 = .incomplete ∧ (s.push line).2.Holding (group ++ [line])) ∨
      (¬ goesOn line ∧ (s.push line).1 = .chunk (fed group ++ line) ∧
        (s.push line).2.Holding []) := by
  have hnil (hcontinuing : ¬ s.isContinuing) : group = [] := by
    rw [h.isContinuing_iff] at hcontinuing
    exact Classical.not_not.mp hcontinuing
  rcases s.push_eq_cases line with ⟨hcontinuing, hline, hpush⟩ | ⟨hcontinuing, hline, hpush⟩ |
    ⟨-, hline, hpush⟩ | ⟨-, hline, hpush⟩
  · obtain rfl := hnil hcontinuing
    rw [hpush]
    exact .inl ⟨rfl, command?_eq_some_iff.mpr (.inl ⟨hline, rfl⟩), h⟩
  · obtain rfl := hnil hcontinuing
    rw [hpush]
    exact .inl ⟨rfl, command?_eq_some_iff.mpr (.inr ⟨hline, rfl⟩), h.pending, h.forall_goesOn⟩
  · rw [hpush]
    refine .inr (.inl ⟨hline, rfl, ?_, ?_⟩)
    · rw [h.pending, fed_concat]
    · exact List.forall_mem_append.mpr ⟨h.forall_goesOn, by simpa using hline⟩
  · rw [hpush, h.pending]
    exact .inr (.inr ⟨hline, rfl, rfl, by simp⟩)

end Holding

/-- Behind any lines, a session holds the last ones of them. -/
theorem exists_holding_after (h : s.Holding []) (lines : List Text) :
    ∃ group, group <:+ lines ∧ (s.after lines).Holding group := by
  induction lines using List.reverseRecOn with
  | nil => exact ⟨[], List.suffix_rfl, h⟩
  | append_singleton lines line ih =>
    obtain ⟨group, hgroup, hholding⟩ := ih
    rw [after_concat]
    rcases hholding.push_cases line with ⟨-, -, hnil⟩ | ⟨-, -, hmore⟩ | ⟨-, -, hnil⟩
    · exact ⟨[], List.nil_suffix, hnil⟩
    · obtain ⟨before, rfl⟩ := hgroup
      exact ⟨group ++ [line], ⟨before, by simp⟩, hmore⟩
    · exact ⟨[], List.nil_suffix, hnil⟩

/-- A chunk is what the session holds and the line that ends it. -/
theorem Holding.eq_of_chunk (h : s.Holding group) (hpush : s.push line = (.chunk c, s')) :
    c = fed group ++ line ∧ ¬ goesOn line := by
  rcases h.push_cases line with ⟨-, ha, -⟩ | ⟨-, ha, -⟩ | ⟨hline, ha, -⟩
  · rw [hpush] at ha
    rcases command?_eq_some_iff.mp ha with ⟨-, h⟩ | ⟨-, h⟩ <;> cases h
  · rw [hpush] at ha
    cases ha
  · rw [hpush] at ha
    exact ⟨Answer.chunk.inj ha, hline⟩

/-! ## The line feeds of a chunk -/

/-- A line feed of a chunk stands behind one of its lines. -/
theorem fed_append_eq_iff {a b : Text} (hgroup : ∀ l ∈ group, '\n' ∉ l) (hline : '\n' ∉ line) :
    fed group ++ line = a ++ '\n' :: b ↔
      ∃ g l g', group = g ++ l :: g' ∧ a = fed g ++ l ∧ b = fed g' ++ line := by
  constructor
  · intro h
    induction group generalizing a with
    | nil =>
      have hfeed : '\n' ∈ line := by
        have hline' : line = a ++ '\n' :: b := h
        simp [hline']
      exact absurd hfeed hline
    | cons l group ih =>
      obtain ⟨hl, hgroup⟩ := List.forall_mem_cons.mp hgroup
      rw [fed_cons, List.append_assoc, List.cons_append] at h
      rcases Text.cases_of_append_eq h with ⟨v, rfl, -⟩ | ⟨_ | ⟨d, u⟩, rfl, hu⟩
      · exact absurd (List.mem_append_right a List.mem_cons_self) hl
      · exact ⟨[], l, group, rfl, by simp [fed], (List.cons.inj hu).2.symm⟩
      · obtain ⟨rfl, hrest⟩ := List.cons.inj hu
        obtain ⟨g, l', g', rfl, rfl, rfl⟩ := ih hgroup hrest
        exact ⟨l :: g, l', g', rfl, by simp [fed], rfl⟩
  · rintro ⟨g, l, g', rfl, rfl, rfl⟩
    simp [fed]

/-- A line that goes on joins the next line by itself if it does so behind
others. -/
theorem joinsNext_append_iff (h : goesOn line) (t : Text) :
    JoinsNext (t ++ line) ↔ JoinsNext line := by
  refine ⟨?_, fun hline => hline.of_isSuffix (List.suffix_append t line)⟩
  have hsuffix {u : Text} (hu : u <:+ t ++ line) : u <:+ line ∨ line <:+ u :=
    List.suffix_or_suffix_of_suffix hu (List.suffix_append t line)
  rintro (hjoin | hjoin)
  · rcases hsuffix hjoin with hline | hline
    · exact .inl hline
    · rcases List.suffix_cons_iff.mp hline with rfl | hnil
      · exact .inl List.suffix_rfl
      · rw [List.suffix_nil.mp hnil] at h
        cases h
  · rcases hsuffix hjoin with hline | hline
    · exact .inr hline
    · rcases List.suffix_cons_iff.mp hline with rfl | hline
      · exact .inr List.suffix_rfl
      · rcases List.suffix_cons_iff.mp hline with rfl | hnil
        · exact absurd h (by decide)
        · rw [List.suffix_nil.mp hnil] at h
          cases h

/-- **When a chunk is one line.**  A chunk is made of lines that go on and of
one that does not.  It has no line feed among its tokens if and only if every
line in front of the last one ends in a backslash, with or without a carriage
return behind it, or leaves a quote open; it is then read as one statement at
most, with one fault at most. -/
theorem lineFeed_notMem_chunk_iff (o : Options) (showTokens : Bool) {lines : List Text}
    {line c : Text} {s' : Session} (hlines : ∀ l ∈ lines ++ [line], '\n' ∉ l)
    (hpush : ((start o showTokens).after lines).push line = (.chunk c, s')) :
    ∃ group, group <:+ lines ∧ c = fed group ++ line ∧ (∀ l ∈ group, goesOn l) ∧ ¬ goesOn line ∧
      ((∀ t ∈ Token.ofSource c, t.kind ≠ .lineFeed) ↔
        ∀ g l g', group = g ++ l :: g' →
          JoinsNext l ∨ ∃ t ∈ Token.ofSource (fed g ++ l), t.IsUnclosed) ∧
      ((∀ t ∈ Token.ofSource c, t.kind ≠ .lineFeed) →
        (s'.parse c).program.toList.length ≤ 1 ∧ (s'.parse c).faults.length ≤ 1) := by
  obtain ⟨group, hgroup, hholding⟩ := exists_holding_after (Holding.start o showTokens) lines
  obtain ⟨rfl, hline⟩ := hholding.eq_of_chunk hpush
  have hfeeds : ∀ l ∈ group, '\n' ∉ l :=
    fun l hl => hlines l (List.mem_append_left _ (hgroup.subset hl))
  have hfeed : '\n' ∉ line := hlines line (List.mem_append_right _ (List.mem_singleton_self line))
  have hjoins {g g' : List Text} {l : Text} (hsplit : group = g ++ l :: g') :
      JoinsNext (fed g ++ l) ↔ JoinsNext l :=
    joinsNext_append_iff (hholding.forall_goesOn l (by simp [hsplit])) (fed g)
  refine ⟨group, hgroup, rfl, hholding.forall_goesOn, hline, ?_, ?_⟩
  · constructor
    · intro hnone g l g' hsplit
      by_contra hopen
      obtain ⟨hjoin, hclosed⟩ := not_or.mp hopen
      obtain ⟨t, ht, hkind⟩ := Token.exists_lineFeed_mem_ofSource_iff.mpr
        ⟨fed g ++ l, fed g' ++ line,
          (fed_append_eq_iff hfeeds hfeed).mpr ⟨g, l, g', hsplit, rfl, rfl⟩,
          fun t ht hunclosed => hclosed ⟨t, ht, hunclosed⟩, mt (hjoins hsplit).mp hjoin⟩
      exact hnone t ht hkind
    · intro hall t ht hkind
      obtain ⟨a, b, hc, hclosed, hjoin⟩ := Token.exists_lineFeed_mem_ofSource_iff.mp ⟨t, ht, hkind⟩
      obtain ⟨g, l, g', hsplit, rfl, -⟩ := (fed_append_eq_iff hfeeds hfeed).mp hc
      rcases hall g l g' hsplit with hl | ⟨u, hu, hunclosed⟩
      · exact hjoin ((hjoins hsplit).mpr hl)
      · exact hclosed u hu hunclosed
  · intro hnone
    obtain ⟨ws, e, htokens, hws, he⟩ :=
      (Token.Closed.ofSource (fed group ++ line)).exists_line hnone
    rw [parse, Recipe.parse, htokens]
    exact length_parseTokens_line_le hws he

/-- A command, a line that leaves a quote open, and one with a carriage return
behind its backslash. -/
theorem lineFeed_notMem_chunk_iff_quoted :
    let lines : List Text :=
      [" :tokens".toList, "RUN 'é \\ ".toList, "' \"#\" \\\r".toList]
    let line : Text := "exit".toList
    let c : Text := "RUN 'é \\ \n' \"#\" \\\r\nexit".toList
    let s' := start .strict true
    (∀ l ∈ lines ++ [line], '\n' ∉ l) ∧
      ((start .strict false).after lines).push line = (.chunk c, s') ∧
      ∃ group, group <:+ lines ∧ c = fed group ++ line ∧ (∀ l ∈ group, goesOn l) ∧
        ¬ goesOn line ∧
        ((∀ t ∈ Token.ofSource c, t.kind ≠ .lineFeed) ↔
          ∀ g l g', group = g ++ l :: g' →
            JoinsNext l ∨ ∃ t ∈ Token.ofSource (fed g ++ l), t.IsUnclosed) ∧
        ((∀ t ∈ Token.ofSource c, t.kind ≠ .lineFeed) →
          (s'.parse c).program.toList.length ≤ 1 ∧ (s'.parse c).faults.length ≤ 1) := by
  intro lines line c s'
  have hlines : ∀ l ∈ lines ++ [line], '\n' ∉ l := by decide +kernel
  have hpush : ((start .strict false).after lines).push line = (.chunk c, s') := by decide +kernel
  exact ⟨hlines, hpush, lineFeed_notMem_chunk_iff .strict false hlines hpush⟩

/-- A blank behind the backslash: the session goes on with the line, and the
reader ends it. -/
theorem lineFeed_mem_chunk_blank :
    let lines : List Text := ["RUN a \\ ".toList]
    let line : Text := "RUN b".toList
    let c : Text := "RUN a \\ \nRUN b".toList
    let s := start .strict false
    (∀ l ∈ lines ++ [line], '\n' ∉ l) ∧ (s.after lines).push line = (.chunk c, s) ∧
      (∃ t ∈ Token.ofSource c, t.kind = .lineFeed) ∧ (s.parse c).program.toList.length = 2 := by
  decide +kernel

end Session

end Recipe
