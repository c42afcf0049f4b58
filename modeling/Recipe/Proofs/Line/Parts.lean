import Recipe.Proofs.Lexeme.Scan
import Recipe.Proofs.Line.Kept

/-!
# No word is lost

A statement stands for the tokens it was read from: its parts, in order, are
those tokens (`Forms.forall₂_parts`).  So the parts of the statements of a
recipe without faults are the tokens of the recipe, line ends left out, and no
token is lost, repeated or moved.
-/

namespace Recipe

/-- What a statement says of one of the tokens it stands for.  It does not hold
the places of keywords and of `#`. -/
structure Part where
  kind : Kind
  literal : Text
  span? : Option Span
deriving DecidableEq, Repr

namespace Part

def hash : Part := ⟨.hash, ['#'], none⟩

def ofKeyword (k : Keyword) : Part := ⟨.keyword k, k.text, none⟩

def ofIdentifier (i : Identifier) : Part := ⟨.word, i.literal, some i.span⟩

def ofFlag (f : Flag) : Part := ⟨.word, f.literal, some f.span⟩

def ofWord (w : Word) : Part := ⟨w.kind, w.literal, some w.span⟩

/-- Whether the part stands for the token, with the span of the token if it has
one. -/
def IsOf (p : Part) (t : Token) : Prop :=
  p.kind = t.kind ∧ p.literal = t.literal ∧ ∀ s ∈ p.span?, s = t.span

end Part

/-- The tokens that a statement stands for, in order. -/
def Statement.parts : Statement → List Part
  | .comment value _ => [.hash, .ofIdentifier value]
  | .fromImage flags source none _ =>
    .ofKeyword .fromImage :: (flags.map .ofFlag ++ [.ofIdentifier source])
  | .fromImage flags source (some stage) _ =>
    .ofKeyword .fromImage ::
      (flags.map .ofFlag ++ [.ofIdentifier source, .ofKeyword .asName, .ofIdentifier stage])
  | .arg word _ _ none _ => [.ofKeyword .arg, .ofIdentifier word]
  | .arg word _ _ (some value) _ => [.ofKeyword .arg, .ofIdentifier word, .ofIdentifier value]
  | .copy flags source dest _ =>
    .ofKeyword .copy :: (flags.map .ofFlag ++ [.ofIdentifier source, .ofIdentifier dest])
  | .other keyword words _ => .ofKeyword keyword :: words.map .ofWord

namespace Part.IsOf

variable {t : Token}

theorem hash (ht : t.kind = .hash) (hadmits : t.kind.Admits t.literal) : Part.hash.IsOf t := by
  rw [ht] at hadmits
  exact ⟨ht.symm, hadmits.symm, by simp [Part.hash]⟩

theorem keyword {k : Keyword} (ht : t.kind = .keyword k) (hadmits : t.kind.Admits t.literal) :
    (ofKeyword k).IsOf t := by
  rw [ht] at hadmits
  exact ⟨ht.symm, hadmits.symm, by simp [ofKeyword]⟩

theorem identifier (ht : t.kind = .word) : (ofIdentifier t.identifier).IsOf t :=
  ⟨ht.symm, rfl, by simp [ofIdentifier, Token.identifier]⟩

theorem flag {flag : Flag} (ht : t.kind = .word) (hflag : t.flag? = some flag) :
    (ofFlag flag).IsOf t := by
  simp only [Token.flag?, Option.bind_eq_bind, Option.bind_eq_some_iff, Option.pure_def,
    Option.some.injEq] at hflag
  obtain ⟨_, -, _, -, rfl⟩ := hflag
  exact ⟨ht.symm, rfl, by simp [ofFlag]⟩

theorem word (t : Token) : (ofWord t.word).IsOf t :=
  ⟨rfl, rfl, by simp [ofWord, Token.word]⟩

/-- Flags and a word behind them stand for their tokens, if what follows
does. -/
theorem append_flags {ts us : List Token} {flags : List Flag} {source : Token} {ps : List Part}
    (hfs : FormFlags ts flags) (hsource : source.IsSource) (hps : List.Forall₂ IsOf ps us) :
    List.Forall₂ IsOf (flags.map .ofFlag ++ .ofIdentifier source.identifier :: ps)
      (ts ++ source :: us) := by
  refine List.rel_append ?_ (.cons (.identifier hsource.1) hps)
  rw [List.forall₂_map_left_iff]
  exact (List.Forall₂.imp (fun _ _ ht => flag ht.1 ht.2) hfs).flip

end Part.IsOf

/-- **A statement stands for the tokens that form it**, if they have the
literals that their kinds admit. -/
theorem Forms.forall₂_parts {h : Token} {ts : List Token} {s : Statement}
    (hforms : Forms (h :: ts) s) (hadmits : ∀ t ∈ h :: ts, t.kind.Admits t.literal) :
    List.Forall₂ Part.IsOf s.parts (h :: ts) := by
  obtain ⟨hhead, hts⟩ := List.forall_mem_cons.mp hadmits
  cases hforms with
  | comment hh hvalue => exact .cons (.hash hh hhead) (.cons (.identifier hvalue) .nil)
  | fromImage hh hfs hsource =>
    exact .cons (.keyword hh hhead) (Part.IsOf.append_flags hfs hsource .nil)
  | stage hh hfs hsource has hstage =>
    refine .cons (.keyword hh hhead) (Part.IsOf.append_flags hfs hsource ?_)
    exact .cons (.keyword has (hts _ (by simp))) (.cons (.identifier hstage) .nil)
  | argEquals hh hword _ => exact .cons (.keyword hh hhead) (.cons (.identifier hword) .nil)
  | argPair hh hname hvalue =>
    exact .cons (.keyword hh hhead) (.cons (.identifier hname.1) (.cons (.identifier hvalue) .nil))
  | argName hh hname => exact .cons (.keyword hh hhead) (.cons (.identifier hname.1) .nil)
  | copy hh hfs hsource hdest =>
    refine .cons (.keyword hh hhead) (Part.IsOf.append_flags hfs hsource ?_)
    exact .cons (.identifier hdest) .nil
  | other hh _ _ =>
    refine .cons (.keyword hh hhead) ?_
    rw [List.map_map, List.forall₂_map_left_iff]
    exact List.forall₂_same.mpr fun t _ => .word t

/-! ## The tokens of a recipe -/

section Source

open Token (lines ofSource)

variable {o : Options} {ws : List Token} {e : Token} {s : Statement}

/-- The tokens of a line without a fault are all in its statement. -/
theorem forall₂_parts_line (hws : Token.InLine ws) (he : e.kind.isLineEnd)
    (hadmits : ∀ t ∈ ws, t.kind.Admits t.literal)
    (hfaults : (parseTokens .strict (ws ++ [e])).faults = []) :
    List.Forall₂ Part.IsOf
      ((parseTokens .strict (ws ++ [e])).program.toList.flatMap Statement.parts) ws := by
  cases ws with
  | nil =>
    rw [List.nil_append, (parseTokens_blank he).1]
    exact .nil
  | cons h ws =>
    obtain ⟨s, hs⟩ := exists_mem_line (o := .strict) rfl hws he (by simp [Options.drops_strict])
      hfaults
    have hmem : s ∈ (parseTokens .strict (h :: ws ++ [e])).program.toList :=
      hs ▸ List.mem_singleton_self s
    rw [hs, List.flatMap_singleton]
    exact (forms_of_faults_eq_nil hws he hmem hfaults).forall₂_parts hadmits

/-- A line without its end. -/
theorem filter_line (hws : Token.InLine ws) (he : e.kind.isLineEnd) :
    (ws ++ [e]).filter (fun t => !t.kind.isLineEnd) = ws := by
  rw [List.filter_append, List.filter_eq_self.mpr (by simpa [Token.InLine] using hws)]
  simp [he]

/-- **No word is lost.**  The parts of the statements of a recipe without faults
are the tokens of the recipe, line ends left out.  Whatever the options, the
statements and the faults of a recipe are those of its lines, and where a line
has both, the parts of the statement are the tokens of the line in front of the
one that the fault shows. -/
theorem forall₂_parts_parse (o : Options) (source : Text) :
    ((parse .strict source).faults = [] →
        List.Forall₂ Part.IsOf ((parse .strict source).program.toList.flatMap Statement.parts)
          ((ofSource source).filter fun t => !t.kind.isLineEnd)) ∧
      (parse o source).program.toList =
        (lines (ofSource source)).flatMap (fun l => (parseTokens o l).program.toList) ∧
      (parse o source).faults =
        (lines (ofSource source)).flatMap (fun l => (parseTokens o l).faults) ∧
      ∀ l ∈ lines (ofSource source), ∀ s ∈ (parseTokens o l).program.toList,
        ∀ f ∈ (parseTokens o l).faults, ∃ p t r,
          l = p ++ t :: r ∧ f = .ofToken f.cause t ∧ List.Forall₂ Part.IsOf s.parts p := by
  have hclosed := Token.Closed.ofSource source
  have hadmits {l : List Token} (hl : l ∈ lines (ofSource source)) :
      ∀ t ∈ l, t.kind.Admits t.literal := by
    intro t ht
    have hmem : t ∈ (lines (ofSource source)).flatten := List.mem_flatten.mpr ⟨l, hl, ht⟩
    rw [Token.flatten_lines] at hmem
    exact Token.admits_of_mem_ofSource hmem
  refine ⟨?_, hclosed.toList_parseTokens, hclosed.faults_parseTokens, ?_⟩
  · intro hfaults
    rw [parse, hclosed.faults_parseTokens, List.flatMap_eq_nil_iff] at hfaults
    rw [parse, hclosed.toList_parseTokens, List.flatMap_assoc]
    conv_rhs => rw [← Token.flatten_lines (ofSource source)]
    rw [List.filter_flatten, List.flatMap_def]
    apply List.rel_flatten
    rw [List.forall₂_map_left_iff, List.forall₂_map_right_iff]
    refine List.forall₂_same.mpr fun l hl => ?_
    obtain ⟨ws, e, hws, he, rfl⟩ := hclosed.exists_of_mem_lines hl
    rw [filter_line hws he]
    exact forall₂_parts_line hws he (fun t ht => hadmits hl t (List.mem_append_left _ ht))
      (hfaults _ hl)
  · intro l hl s hs f hf
    obtain ⟨ws, e, hws, he, rfl⟩ := hclosed.exists_of_mem_lines hl
    obtain ⟨h, ts, t, r, hline, hforms, -, hfaults⟩ := exists_forms_of_mem_line hws he hs
    refine ⟨h :: ts, t, r, hline, ?_, hforms.forall₂_parts fun u hu => ?_⟩
    · rw [hfaults] at hf
      split at hf
      · cases hf
      · rw [List.mem_singleton.mp hf]
        rfl
    · exact hadmits hl u (hline ▸ List.mem_append_left _ hu)

/-- A recipe with an alias and a comment, and one with a word too many. -/
theorem forall₂_parts_parse_stage :
    let source := "FROM --platform=p a AS b\n# c".toList
    let faulty := "ARG a b c d".toList
    ((parse .strict source).faults = [] ∧
        List.Forall₂ Part.IsOf ((parse .strict source).program.toList.flatMap Statement.parts)
          ((ofSource source).filter fun t => !t.kind.isLineEnd)) ∧
      ∃ l ∈ lines (ofSource faulty), ∃ s ∈ (parseTokens .strict l).program.toList,
        ∃ f ∈ (parseTokens .strict l).faults, ∃ p t r,
          l = p ++ t :: r ∧ f = .ofToken f.cause t ∧ List.Forall₂ Part.IsOf s.parts p := by
  intro source faulty
  have hsource : (parse .strict source).faults = [] := by decide +kernel
  have hline : ofSource faulty ∈ lines (ofSource faulty) := by decide +kernel
  have hstatement : ∃ s, s ∈ (parseTokens .strict (ofSource faulty)).program.toList :=
    List.exists_mem_of_ne_nil _ (by decide +kernel)
  have hfault : ∃ f, f ∈ (parseTokens .strict (ofSource faulty)).faults :=
    List.exists_mem_of_ne_nil _ (by decide +kernel)
  obtain ⟨s, hs⟩ := hstatement
  obtain ⟨f, hf⟩ := hfault
  exact ⟨⟨hsource, (forall₂_parts_parse .strict source).1 hsource⟩,
    _, hline, s, hs, f, hf, (forall₂_parts_parse .strict faulty).2.2.2 _ hline s hs f hf⟩

end Source

end Recipe
