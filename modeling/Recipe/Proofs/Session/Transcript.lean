import Mathlib.Logic.Function.Iterate
import Recipe.Proofs.Session.Replay

/-!
# What becomes of the lines of a session

Every line that a session is given is a command or a part of a chunk.  Commands
are only found between chunks, and what the session holds does not change by
them.  All other lines come back in the order in which they were given, each of
them once, but for the last ones if they go on; these the session holds in the
end (`Session.transcript_start`).

## How the proof goes

One step: `Session.answers` says what a session does with a line, whatever it
holds.  A run: the lines that a session holds and those that it is given make up
groups, each of lines that go on and of one that does not
(`Session.Holding.exists_groups`).
-/

namespace Recipe.Session

variable {s : Session} {group : List Text} {line : Text}

/-! ## One line -/

/-- Whether the answer is to a command. -/
def Answer.isCommand : Answer → Bool
  | .exit | .toggleTokens => true
  | .incomplete | .chunk _ => false

theorem Answer.isCommand_of_command? {a : Answer} (h : command? line = some a) : a.isCommand := by
  rcases command?_eq_some_iff.mp h with ⟨-, rfl⟩ | ⟨-, rfl⟩ <;> rfl

/-- A session answers a line as a command if it is one, and only between
chunks. -/
theorem fst_push_eq_iff {a : Answer} (ha : a.isCommand) :
    (s.push line).1 = a ↔ ¬ s.isContinuing ∧ command? line = some a := by
  have hspoken (h : s.isContinuing ∨ command? line = none) :
      ¬ (¬ s.isContinuing ∧ command? line = some a) := by
    rintro ⟨hcontinuing, hsome⟩
    rw [h.resolve_left hcontinuing] at hsome
    cases hsome
  rcases s.push_eq_cases line with ⟨hcontinuing, hline, hpush⟩ | ⟨hcontinuing, hline, hpush⟩ |
    ⟨hkept, -, hpush⟩ | ⟨hkept, -, hpush⟩
  · rw [hpush, command?_eq_some_iff.mpr (.inl ⟨hline, rfl⟩)]
    simp [hcontinuing]
  · rw [hpush, command?_eq_some_iff.mpr (.inr ⟨hline, rfl⟩)]
    simp [hcontinuing]
  · rw [hpush]
    exact iff_of_false (by rintro rfl; cases ha) (hspoken hkept)
  · rw [hpush]
    exact iff_of_false (by rintro rfl; cases ha) (hspoken hkept)

/-- What a session answers to a line, and what it does with it. -/
structure Answers (s : Session) (line : Text) : Prop where
  exit_iff : (s.push line).1 = .exit ↔ ¬ s.isContinuing ∧ Text.trim line = "exit".toList
  toggleTokens_iff :
    (s.push line).1 = .toggleTokens ↔ ¬ s.isContinuing ∧ Text.trim line = ":tokens".toList
  /-- A command leaves alone what the session holds. -/
  pending_eq : (s.push line).1.isCommand → (s.push line).2.pending = s.pending
  isContinuing_iff : (s.push line).2.isContinuing ↔ (s.push line).1 = .incomplete
  showTokens_eq : (s.push line).2.showTokens =
    if (s.push line).1 = .toggleTokens then !s.showTokens else s.showTokens

/-- **One line**, whatever the session holds. -/
theorem answers (s : Session) (line : Text) : s.Answers line where
  exit_iff := by
    rw [fst_push_eq_iff rfl, command?_eq_some_iff]
    simp
  toggleTokens_iff := by
    rw [fst_push_eq_iff rfl, command?_eq_some_iff]
    simp
  pending_eq := by
    rcases s.push_eq_cases line with ⟨-, -, hpush⟩ | ⟨-, -, hpush⟩ | ⟨-, -, hpush⟩ | ⟨-, -, hpush⟩
    · simp [hpush]
    · simp [hpush]
    · simp [hpush, Answer.isCommand]
    · simp [hpush, Answer.isCommand]
  isContinuing_iff := by
    rcases s.push_eq_cases line with ⟨hcontinuing, -, hpush⟩ | ⟨hcontinuing, -, hpush⟩ |
      ⟨-, -, hpush⟩ | ⟨-, -, hpush⟩
    · simpa [hpush] using hcontinuing
    · simpa [hpush, isContinuing] using hcontinuing
    · simp [hpush, isContinuing]
    · simp [hpush, isContinuing]
  showTokens_eq := by
    rcases s.push_eq_cases line with ⟨-, -, hpush⟩ | ⟨-, -, hpush⟩ | ⟨-, -, hpush⟩ | ⟨-, -, hpush⟩
    all_goals simp [hpush]

/-! ## Many lines -/

/-- The lines that a session is given, each with its answer. -/
def transcript (s : Session) : List Text → List (Text × Answer)
  | [] => []
  | line :: lines => (line, (s.push line).1) :: (s.push line).2.transcript lines

/-- The part of a transcript that is no command. -/
def spoken (ts : List (Text × Answer)) : List (Text × Answer) := ts.filter fun t => !t.2.isCommand

/-- Lines that go on, and the first one that does not. -/
structure Group where
  front : List Text
  last : Text
  goesOn_of_mem : ∀ line ∈ front, goesOn line
  not_goesOn_last : ¬ goesOn last

namespace Group

/-- The lines of the group, joined by line feeds. -/
def chunk (g : Group) : Text := List.intercalate ['\n'] (g.front ++ [g.last])

/-- The group in a transcript: its last line is answered with the whole of
it. -/
def entries (g : Group) : List (Text × Answer) :=
  g.front.map (·, .incomplete) ++ [(g.last, .chunk g.chunk)]

theorem chunk_eq (g : Group) : g.chunk = fed g.front ++ g.last := by
  rw [chunk, intercalate_eq_dropLast_fed, fed_concat, List.dropLast_concat]

end Group

/-- **Many lines.**  What a session holds and what it is given in chunks are
groups, and lines that are left over, which it holds in the end. -/
theorem Holding.exists_groups (h : s.Holding group) (lines : List Text) :
    ∃ (groups : List Group) (rest : List Text), (∀ line ∈ rest, goesOn line) ∧
      group.map (·, .incomplete) ++ spoken (s.transcript lines) =
        groups.flatMap Group.entries ++ rest.map (·, .incomplete) ∧
      (s.after lines).pending = fed rest := by
  induction lines generalizing s group with
  | nil => exact ⟨[], group, h.forall_goesOn, List.append_nil _, h.pending⟩
  | cons line lines ih =>
    rw [transcript, spoken]
    rcases h.push_cases line with ⟨rfl, hcommand, hs'⟩ | ⟨-, hanswer, hs'⟩ | ⟨hline, hanswer, hs'⟩
    · obtain ⟨groups, rest, hrest, hentries, hpending⟩ := ih hs'
      rw [List.filter_cons_of_neg (by simp [Answer.isCommand_of_command? hcommand])]
      exact ⟨groups, rest, hrest, hentries, hpending⟩
    · obtain ⟨groups, rest, hrest, hentries, hpending⟩ := ih hs'
      rw [List.filter_cons_of_pos (by rw [hanswer]; rfl), hanswer]
      refine ⟨groups, rest, hrest, ?_, hpending⟩
      rw [← hentries, List.map_append, List.append_assoc]
      rfl
    · obtain ⟨groups, rest, hrest, hentries, hpending⟩ := ih hs'
      let g : Group := ⟨group, line, h.forall_goesOn, hline⟩
      rw [List.filter_cons_of_pos (by rw [hanswer]; rfl), hanswer]
      refine ⟨g :: groups, rest, hrest, ?_, hpending⟩
      rw [List.flatMap_cons, List.append_assoc, ← hentries, Group.entries, g.chunk_eq,
        List.append_assoc]
      rfl

theorem showTokens_after (s : Session) (lines : List Text) :
    (s.after lines).showTokens =
      not^[((s.transcript lines).map Prod.snd).count .toggleTokens] s.showTokens := by
  induction lines generalizing s with
  | nil => rfl
  | cons line lines ih =>
    rw [after, List.foldl_cons, ← after, ih, (s.answers line).showTokens_eq, transcript,
      List.map_cons, List.count_cons]
    by_cases htoggle : (s.push line).1 = .toggleTokens
    · simp [htoggle]
    · simp [htoggle]

/-- **A session loses and repeats no line.**  Each line that a new session is
given is answered as a command exactly if the session does not hold a chunk and
the line is the command but for blanks, and a command leaves alone what the
session holds.  All other lines, in their order, are groups of lines that go on
and of one that does not, each of them given back as one chunk with its last
line, and lines that go on, which the session holds in the end, each with its
line feed.  The session goes on exactly behind a line that is answered as
incomplete, and it shows tokens as at the start but for one change with every
command to do so. -/
theorem transcript_start (o : Options) (showTokens : Bool) (lines : List Text) :
    let s := start o showTokens
    (∀ line, (s.after lines).Answers line) ∧
      (∃ (groups : List Group) (rest : List Text), (∀ line ∈ rest, goesOn line) ∧
        spoken (s.transcript lines) =
          groups.flatMap Group.entries ++ rest.map (·, .incomplete) ∧
        (s.after lines).pending = fed rest) ∧
      (s.after lines).showTokens =
        not^[((s.transcript lines).map Prod.snd).count .toggleTokens] showTokens := by
  intro s
  have hholding : s.Holding [] := .start o showTokens
  exact ⟨fun line => answers _ line, hholding.exists_groups lines, s.showTokens_after lines⟩

/-- A command in a chunk is a part of it, and an empty line is a chunk. -/
example :
    (start .strict false).transcript
        [" :tokens".toList, "RUN \\ ".toList, "exit".toList, [], "a\\".toList] =
      [(" :tokens".toList, .toggleTokens), ("RUN \\ ".toList, .incomplete),
        ("exit".toList, .chunk "RUN \\ \nexit".toList), ([], .chunk []),
        ("a\\".toList, .incomplete)] := by
  decide +kernel

end Recipe.Session
