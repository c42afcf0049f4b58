import Recipe.Proofs.Lexeme.Sequence
import Recipe.Proofs.Program.Recorded
import Recipe.Proofs.Statement.Locality
import Recipe.Program.Reader

/-!
# The lines of a list of tokens

A program is read line by line.  `Token.lines` cuts a list of tokens behind
every end of line, and `Token.Closed.toList_parseTokens` and
`Token.Closed.faults_parseTokens` say that a list which ends with the closing
token is read as its lines are, each by a reader of its own.
-/

namespace Recipe

namespace Token

/-- The lines of a list of tokens, each with its end behind it. -/
def lines : List Token → List (List Token)
  | [] => []
  | t :: ts =>
    if t.kind.isLineEnd then [t] :: lines ts
    else
      match lines ts with
      | [] => [[t]]
      | l :: ls => (t :: l) :: ls

/-- A line and what stands behind its end. -/
theorem lines_append {ws ts : List Token} {e : Token} (hws : InLine ws) (he : e.kind.isLineEnd) :
    lines (ws ++ e :: ts) = (ws ++ [e]) :: lines ts := by
  induction ws with
  | nil => rw [List.nil_append, lines, if_pos he]; rfl
  | cons t ws ih =>
    obtain ⟨ht, hws⟩ := inLine_cons.mp hws
    rw [List.cons_append, lines, if_neg ht, ih hws]
    rfl

/-- Nothing is lost between the lines. -/
theorem flatten_lines (ts : List Token) : (lines ts).flatten = ts := by
  induction ts with
  | nil => rfl
  | cons t ts ih =>
    rw [lines]
    split
    · rw [List.flatten_cons, ih]
      rfl
    · split
      · rename_i hnil
        rw [hnil] at ih
        simpa using ih
      · rename_i l ls hlines
        rw [hlines, List.flatten_cons] at ih
        rw [List.flatten_cons, List.cons_append, ih]

theorem sublist_of_mem_lines {l ts : List Token} (hl : l ∈ lines ts) : l.Sublist ts :=
  flatten_lines ts ▸ List.sublist_flatten_of_mem hl

/-- The closing token stands behind all others, and nowhere else: lines that end
with a line feed, and a last one that ends with the closing token. -/
inductive Closed : List Token → Prop where
  | last {ws : List Token} {e : Token} : InLine ws → e.kind = .textEnd → Closed (ws ++ [e])
  | line {ws us : List Token} {e : Token} : InLine ws → e.kind = .lineFeed → Closed us →
      Closed (ws ++ e :: us)

namespace Closed

theorem cons {t : Token} {ts : List Token} (ht : t.kind ≠ .textEnd) (h : Closed ts) :
    Closed (t :: ts) := by
  by_cases hfeed : t.kind = .lineFeed
  · exact .line inLine_nil hfeed h
  · have hend : ¬ t.kind.isLineEnd := by simp [Kind.isLineEnd, ht, hfeed]
    cases h with
    | last hws he => exact .last (inLine_cons.mpr ⟨hend, hws⟩) he
    | line hws he hus => exact .line (inLine_cons.mpr ⟨hend, hws⟩) he hus

theorem of_append {us : List Token} {e : Token} (hus : ∀ t ∈ us, t.kind ≠ .textEnd)
    (he : e.kind = .textEnd) : Closed (us ++ [e]) := by
  induction us with
  | nil => exact .last inLine_nil he
  | cons t us ih =>
    exact .cons (hus t List.mem_cons_self) (ih fun u hu => hus u (List.mem_cons_of_mem t hu))

/-- The tokens of a source are closed. -/
theorem ofSource (source : Text) : Closed (ofSource source) := by
  obtain ⟨us, e, hsource, he, hus⟩ := exists_ofSource_eq_append source
  exact hsource ▸ of_append hus he

/-- The lines of a closed list are tokens in a line with an end behind them. -/
theorem exists_of_mem_lines {ts l : List Token} (h : Closed ts) (hl : l ∈ lines ts) :
    ∃ ws e, InLine ws ∧ e.kind.isLineEnd ∧ l = ws ++ [e] := by
  induction h with
  | @last ws e hws he =>
    have hend : e.kind.isLineEnd := by simp [he, Kind.isLineEnd]
    rw [lines_append hws hend] at hl
    exact ⟨ws, e, hws, hend, List.mem_singleton.mp hl⟩
  | @line ws us e hws he _ ih =>
    have hend : e.kind.isLineEnd := by simp [he, Kind.isLineEnd]
    rw [lines_append hws hend] at hl
    rcases List.mem_cons.mp hl with rfl | hl
    · exact ⟨ws, e, hws, hend, rfl⟩
    · exact ih hl

/-- Tokens without a line feed are one line. -/
theorem exists_line {ts : List Token} (h : Closed ts) (hfeed : ∀ t ∈ ts, t.kind ≠ .lineFeed) :
    ∃ ws e, ts = ws ++ [e] ∧ InLine ws ∧ e.kind.isLineEnd := by
  cases h with
  | @last ws e hws he => exact ⟨ws, e, rfl, hws, by rw [he]; rfl⟩
  | @line ws us e _ he _ => exact absurd he (hfeed e (by simp))

end Closed

end Token

namespace Feed

open Token (InLine)

variable {o : Options} {ws us : List Token} {e u v : Token}

/-- What stands behind a line does not matter for it. -/
theorem sameLine_append (hws : InLine ws) (he : e.kind.isLineEnd) (us' : List Token) :
    SameLine .stay ⟨ws ++ e :: us, u⟩ ⟨ws ++ e :: us', v⟩ where
  line := by
    rw [line_append hws he, line_append hws he]
    exact (List.map_id ws).symm
  stop := by
    rw [skipLine_append hws he, skipLine_append hws he]
    rfl

/-- The text does not end in front of a line, unless the line is its blank
end. -/
theorem kind_head_line_ne (hws : InLine ws) (h : ws ≠ [] ∨ e.kind ≠ .textEnd) :
    (head ⟨ws ++ [e], u⟩).kind ≠ .textEnd := by
  cases ws with
  | nil => exact h.resolve_left fun hne => hne rfl
  | cons t ws =>
    intro ht
    have hend : t.kind = .textEnd := ht
    exact (Token.inLine_cons.mp hws).1 (by rw [hend]; rfl)

/-- Reading goes on behind the end of the line. -/
theorem readLines_append (hws : InLine ws) (he : e.kind.isLineEnd)
    (hhead : (head ⟨ws ++ [e], e⟩).kind ≠ .textEnd) :
    readLines o ⟨ws ++ e :: us, u⟩ =
      ((readLine o ⟨ws ++ [e], e⟩).statement?.toList ++ (readLines o ⟨us, u⟩).1,
        (readLine o ⟨ws ++ [e], e⟩).fault?.toList ++ (readLines o ⟨us, u⟩).2.1,
        (readLines o ⟨us, u⟩).2.2) := by
  have hline : SameLine .stay ⟨ws ++ [e], e⟩ ⟨ws ++ e :: us, u⟩ := sameLine_append hws he us
  obtain ⟨hstatement, hfault⟩ := hline.readLine o
  rw [readLines, dif_neg (by rwa [hline.kind_head])]
  simp [skipLine_append hws he, hstatement, hfault, rest_readLine]

/-- A line alone is read up to its end. -/
theorem readLines_line (hws : InLine ws) (he : e.kind.isLineEnd)
    (hhead : (head ⟨ws ++ [e], e⟩).kind ≠ .textEnd) :
    readLines o ⟨ws ++ [e], u⟩ =
      ((readLine o ⟨ws ++ [e], e⟩).statement?.toList,
        (readLine o ⟨ws ++ [e], e⟩).fault?.toList, ⟨[], u⟩) := by
  have hrest : readLines o ⟨[], u⟩ = ([], [], ⟨[], u⟩) := by
    rw [readLines, dif_pos (by rfl)]
  rw [readLines_append hws he hhead, hrest]
  simp

/-- At the end of the text there is nothing to read. -/
theorem readLines_of_textEnd {f : Feed} (h : f.head.kind = .textEnd) :
    readLines o f = ([], [], f) := by
  rw [readLines, dif_pos h]

/-- In front of the end of the text, the line is read first. -/
theorem readLines_of_ne_textEnd {f : Feed} (h : f.head.kind ≠ .textEnd) :
    readLines o f =
      ((f.readLine o).statement?.toList ++ (readLines o f.skipLine.tail).1,
        (f.readLine o).fault?.toList ++ (readLines o f.skipLine.tail).2.1,
        (readLines o f.skipLine.tail).2.2) := by
  rw [readLines, dif_neg h]
  simp [rest_readLine]

/-- Induction over the lines of a feed, up to an end of text. -/
@[elab_as_elim]
theorem lines_induction {motive : Feed → Prop} (stop : ∀ f, f.head.kind = .textEnd → motive f)
    (line : ∀ f, f.head.kind ≠ .textEnd → motive f.skipLine.tail → motive f) (f : Feed) :
    motive f := by
  induction hn : f.tokens.length using Nat.strongRecOn generalizing f with
  | ind n ih =>
    subst hn
    by_cases h : f.head.kind = .textEnd
    · exact stop f h
    · have hlt := length_tail_readLine_lt .strict h
      rw [rest_readLine] at hlt
      exact line f h (ih _ hlt f.skipLine.tail rfl)

/-- There is nothing to read in a blank line. -/
theorem readLines_blank (he : e.kind.isLineEnd) :
    (readLines o ⟨[e], u⟩).1 = [] ∧ (readLines o ⟨[e], u⟩).2.1 = [] := by
  by_cases hend : e.kind = .textEnd
  · rw [readLines_of_textEnd (f := ⟨[e], u⟩) hend]
    exact ⟨rfl, rfl⟩
  · have hfeed : e.kind = .lineFeed := by simpa [Kind.isLineEnd, hend] using he
    have hread : readLine o ⟨[e], e⟩ = ⟨none, none, ⟨[e], e⟩⟩ := by
      rw [readLine, head_mk_cons, if_pos hfeed]
    rw [← List.nil_append [e], readLines_line Token.inLine_nil he hend, List.nil_append, hread]
    exact ⟨rfl, rfl⟩

@[simp] theorem ofList_append_singleton (ws : List Token) (e : Token) :
    ofList (ws ++ [e]) = ⟨ws ++ [e], e⟩ := by
  rw [ofList, List.getLastD_concat]

end Feed

/-! ## Programs and their lines -/

section Parse

variable {o : Options} {ts : List Token}

theorem toList_parseTokens (o : Options) (ts : List Token) :
    (parseTokens o ts).program.toList = (Feed.readLines o (.ofList ts)).1 :=
  Program.toList_ofStatements _

theorem faults_parseTokens (o : Options) (ts : List Token) :
    (parseTokens o ts).faults = (Feed.readLines o (.ofList ts)).2.1 :=
  List.nil_append _

/-- The comments in front of everything else are the directives. -/
theorem program_parseTokens (o : Options) (ts : List Token) :
    (parseTokens o ts).program = .ofStatements (parseTokens o ts).program.toList := by
  rw [toList_parseTokens]
  rfl

namespace Token.Closed

/-- What is read of a closed list is read of its lines. -/
theorem readLines_eq (h : Closed ts) (u : Token) :
    (Feed.readLines o ⟨ts, u⟩).1 = (lines ts).flatMap (fun l => (Feed.readLines o (.ofList l)).1) ∧
      (Feed.readLines o ⟨ts, u⟩).2.1 =
        (lines ts).flatMap (fun l => (Feed.readLines o (.ofList l)).2.1) := by
  induction h with
  | @last ws e hws he =>
    have hend : e.kind.isLineEnd := by simp [he, Kind.isLineEnd]
    rw [lines_append hws hend, lines, List.flatMap_singleton, List.flatMap_singleton,
      Feed.ofList_append_singleton]
    by_cases hhead : (Feed.head ⟨ws ++ [e], e⟩).kind = .textEnd
    · have hline : Feed.SameLine .stay ⟨ws ++ [e], e⟩ ⟨ws ++ [e], u⟩ :=
        Feed.sameLine_append hws hend []
      rw [Feed.readLines_of_textEnd hhead,
        Feed.readLines_of_textEnd (f := ⟨ws ++ [e], u⟩) (by rw [hline.kind_head, hhead])]
      exact ⟨rfl, rfl⟩
    · rw [Feed.readLines_line hws hend hhead, Feed.readLines_line hws hend hhead]
      exact ⟨rfl, rfl⟩
  | @line ws us e hws he hus ih =>
    have hend : e.kind.isLineEnd := by simp [he, Kind.isLineEnd]
    have hhead : (Feed.head ⟨ws ++ [e], e⟩).kind ≠ .textEnd :=
      Feed.kind_head_line_ne hws (.inr (by simp [he]))
    rw [lines_append hws hend, List.flatMap_cons, List.flatMap_cons, Feed.ofList_append_singleton,
      Feed.readLines_append hws hend hhead, Feed.readLines_line hws hend hhead, ih.1, ih.2]
    exact ⟨rfl, rfl⟩

/-- The statements of a closed list are those of its lines, each line read
alone. -/
theorem toList_parseTokens (h : Closed ts) :
    (parseTokens o ts).program.toList =
      (lines ts).flatMap fun l => (parseTokens o l).program.toList := by
  simp only [Recipe.toList_parseTokens]
  exact (h.readLines_eq _).1

/-- The faults of a closed list are those of its lines, each line read alone. -/
theorem faults_parseTokens (h : Closed ts) :
    (parseTokens o ts).faults = (lines ts).flatMap fun l => (parseTokens o l).faults := by
  simp only [Recipe.faults_parseTokens]
  exact (h.readLines_eq _).2

/-- A line in front of others is read first. -/
theorem parseTokens_line_append {ws : List Token} {e : Token} (h : Closed ts) (o : Options)
    (hws : InLine ws) (he : e.kind = .lineFeed) :
    (parseTokens o (ws ++ e :: ts)).program.toList =
        (parseTokens o (ws ++ [e])).program.toList ++ (parseTokens o ts).program.toList ∧
      (parseTokens o (ws ++ e :: ts)).faults =
        (parseTokens o (ws ++ [e])).faults ++ (parseTokens o ts).faults := by
  have hclosed : Closed (ws ++ e :: ts) := .line hws he h
  rw [hclosed.toList_parseTokens, hclosed.faults_parseTokens,
    lines_append hws (by rw [he]; rfl), List.flatMap_cons, List.flatMap_cons,
    ← h.toList_parseTokens, ← h.faults_parseTokens]
  exact ⟨rfl, rfl⟩

end Token.Closed

/-! ## One line -/

/-- What a line of tokens is read as. -/
theorem parseTokens_line {ws : List Token} {e : Token} (hne : ws ≠ []) (hws : Token.InLine ws)
    (he : e.kind.isLineEnd) :
    (parseTokens o (ws ++ [e])).program.toList =
        (Feed.readLine o ⟨ws ++ [e], e⟩).statement?.toList ∧
      (parseTokens o (ws ++ [e])).faults = (Feed.readLine o ⟨ws ++ [e], e⟩).fault?.toList := by
  have hhead : (Feed.head ⟨ws ++ [e], e⟩).kind ≠ .textEnd := Feed.kind_head_line_ne hws (.inl hne)
  rw [toList_parseTokens, faults_parseTokens, Feed.ofList_append_singleton,
    Feed.readLines_line hws he hhead]
  exact ⟨rfl, rfl⟩

theorem parseTokens_blank {e : Token} (he : e.kind.isLineEnd) :
    (parseTokens o [e]).program.toList = [] ∧ (parseTokens o [e]).faults = [] := by
  rw [toList_parseTokens, faults_parseTokens]
  exact Feed.readLines_blank he

/-! ## Lines elsewhere -/

namespace Token

theorem InLine.map {ws : List Token} (hws : InLine ws) (m : Move) : InLine (ws.map m.token) := by
  intro t ht
  obtain ⟨u, hu, rfl⟩ := List.mem_map.mp ht
  exact hws u hu

theorem Closed.map (h : Closed ts) (m : Move) : Closed (ts.map m.token) := by
  induction h with
  | last hws he =>
    rw [List.map_append]
    exact .last (hws.map m) he
  | line hws he _ ih =>
    rw [List.map_append]
    exact .line (hws.map m) he ih

/-- A line and the same line elsewhere. -/
theorem sameLine_map {ws : List Token} {e : Token} (hws : InLine ws) (he : e.kind.isLineEnd)
    (m : Move) : Feed.SameLine m ⟨ws ++ [e], e⟩ ⟨ws.map m.token ++ [m.token e], m.token e⟩ where
  line := by
    rw [Feed.line_append hws he]
    exact Feed.line_append (hws.map m) he
  stop := by
    rw [Feed.skipLine_append hws he, Feed.skipLine_append (hws.map m) (e := m.token e) he]
    rfl

/-- A line elsewhere is read as the line is. -/
theorem parseTokens_map_line {ws : List Token} {e : Token} (hws : InLine ws)
    (he : e.kind.isLineEnd) (m : Move) :
    (parseTokens o ((ws ++ [e]).map m.token)).program.toList =
        (parseTokens o (ws ++ [e])).program.toList.map m.statement ∧
      (parseTokens o ((ws ++ [e]).map m.token)).faults =
        (parseTokens o (ws ++ [e])).faults.map m.fault := by
  rw [List.map_append]
  by_cases hne : ws = []
  · subst hne
    have hblank := parseTokens_blank (o := o) he
    have hblank' := parseTokens_blank (o := o) (e := m.token e) he
    rw [List.nil_append, hblank.1, hblank.2]
    exact hblank'
  · obtain ⟨hstatement, hfault⟩ := (sameLine_map hws he m).readLine o
    have hline := parseTokens_line (o := o) hne hws he
    have hline' := parseTokens_line (o := o) (e := m.token e) (by simpa using hne) (hws.map m) he
    rw [hline.1, hline.2, ← Option.toList_map, ← Option.toList_map, ← hstatement, ← hfault]
    exact hline'

/-- **Reading does not depend on places**: tokens elsewhere are read as the
tokens are. -/
theorem Closed.parseTokens_map (h : Closed ts) (m : Move) :
    (parseTokens o (ts.map m.token)).program.toList =
        (parseTokens o ts).program.toList.map m.statement ∧
      (parseTokens o (ts.map m.token)).faults = (parseTokens o ts).faults.map m.fault := by
  induction h with
  | last hws he => exact parseTokens_map_line hws (by rw [he]; rfl) m
  | @line ws us e hws he hus ih =>
    have hline := hus.parseTokens_line_append o hws he
    have hline' := (hus.map m).parseTokens_line_append o (hws.map m) (e := m.token e) he
    have hmap := parseTokens_map_line (o := o) hws (e := e) (by rw [he]; rfl) m
    rw [List.map_append, List.map_singleton] at hmap
    rw [List.map_append, List.map_cons, hline.1, hline.2, hline'.1, hline'.2, hmap.1, hmap.2, ih.1,
      ih.2, List.map_append, List.map_append]
    exact ⟨rfl, rfl⟩

end Token

end Parse

end Recipe
