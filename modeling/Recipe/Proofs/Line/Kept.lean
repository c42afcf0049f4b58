import Recipe.Proofs.Line.Basic
import Recipe.Proofs.Statement.Forms

/-!
# What is kept of a line

The statement of a line is formed by the first tokens of that line, up to the
end of the line or to a token that is reported (`exists_forms_of_mem_line`); so
are the statements of a source, wherever they stand
(`exists_forms_of_mem_parse`).  Where flags that break off are reported, a line
that yields no statement yields a fault, unless it is blank or dropped unread
(`exists_mem_line`).
-/

namespace Recipe

namespace Grammar

variable {α β : Type} {o : Options}

/-- A grammar that gives a fault with every refusal. -/
def Reports (g : Grammar α) : Prop := ∀ f, g f ≠ .error none

namespace Reports

theorem pure (a : α) : Reports (Pure.pure a) := by
  rintro f ⟨⟩

theorem bind {g : Grammar α} {k : α → Grammar β} (hg : Reports g) (hk : ∀ a, Reports (k a)) :
    Reports (g >>= k) := by
  intro f
  cases hgf : g f with
  | error e =>
    rw [bind_of_error hgf]
    rintro ⟨⟩
    exact hg f hgf
  | ok p =>
    rw [bind_of_ok hgf]
    exact hk p.1 p.2

theorem expect (kind : Kind) : Reports (expect kind) := by
  intro f
  unfold Grammar.expect
  split <;> rintro ⟨⟩

theorem accept? (kind : Kind) : Reports (accept? kind) := by
  intro f
  unfold Grammar.accept?
  split <;> rintro ⟨⟩

theorem flags (hreport : o.reportMalformedFlags) (word : Token) : Reports (flags o word) := by
  intro f
  fun_induction Grammar.flags o word f with
  | case1 => rintro ⟨⟩
  | case2 => simp [hreport]
  | case3 word f _ flag _ e hnext =>
    rintro ⟨⟩
    exact expect .word f hnext
  | case4 word f _ flag _ next rest hnext _ e hrest ih =>
    rintro ⟨⟩
    exact ih hrest
  | case5 => rintro ⟨⟩

theorem words : Reports words := by
  intro f
  unfold Grammar.words
  split <;> rintro ⟨⟩

theorem statement (hreport : o.reportMalformedFlags) (head : Token) :
    Reports (statement o head) := by
  unfold Grammar.statement
  split
  · exact (expect .word).bind fun _ => pure _
  · refine (expect .word).bind fun _ => (flags hreport _).bind fun _ => (accept? _).bind fun a => ?_
    cases a with
    | none => exact pure _
    | some _ => exact (expect .word).bind fun _ => pure _
  · refine (expect .word).bind fun word => ?_
    split
    · exact pure _
    · refine (accept? .word).bind fun a => ?_
      cases a <;> exact pure _
  · exact (expect .word).bind fun _ => (flags hreport _).bind fun _ =>
      (expect .word).bind fun _ => pure _
  · exact words.bind fun _ => pure _
  · rintro _ ⟨⟩

end Reports

end Grammar

section Line

open Token (InLine)

variable {o : Options} {ws : List Token} {e : Token} {s : Statement}

/-- A line without tokens yields nothing. -/
theorem ne_nil_of_mem_line (he : e.kind.isLineEnd)
    (hs : s ∈ (parseTokens o (ws ++ [e])).program.toList) : ws ≠ [] := by
  rintro rfl
  rw [List.nil_append, (parseTokens_blank he).1] at hs
  cases hs

/-- A line that yields a statement is left to the grammar of its head, which
takes the tokens in front of the end of the line, or of the one and only token
that is reported. -/
theorem exists_statement_of_mem_line (hws : InLine ws) (he : e.kind.isLineEnd)
    (hs : s ∈ (parseTokens o (ws ++ [e])).program.toList) :
    ∃ h ts t r, ws ++ [e] = h :: ts ++ t :: r ∧ ¬ o.drops h.kind ∧
      Grammar.statement o h ⟨ts ++ t :: r, e⟩ = .ok (s, ⟨t :: r, e⟩) ∧
      (parseTokens o (ws ++ [e])).faults =
        if t.kind.isLineEnd then [] else [.unexpectedToken .lineFeed t] := by
  have hne := ne_nil_of_mem_line he hs
  rw [(parseTokens_line hne hws he).1, Option.mem_toList] at hs
  rw [(parseTokens_line hne hws he).2]
  obtain ⟨h, us, rfl⟩ := List.exists_cons_of_ne_nil hne
  obtain ⟨hdrops, rest, hstatement, hread⟩ := Feed.exists_of_readLine hs
  -- The grammar stops in front of the end of the line, so there is a token
  -- left.
  obtain ⟨ts, htokens, hlast, hline⟩ := Grammar.StaysInLine.statement o _ hstatement
  obtain ⟨_ | ⟨t, r⟩, u⟩ := rest
  · have hus : us ++ [e] = ts := htokens.trans (List.append_nil ts)
    exact absurd he (hline e (hus ▸ List.mem_append_right us (List.mem_singleton_self e)))
  · have hus : us ++ [e] = ts ++ t :: r := htokens
    obtain rfl : e = u := hlast
    refine ⟨h, ts, t, r, congrArg (h :: ·) hus, hdrops, hus ▸ hstatement, ?_⟩
    rw [hread, Feed.reading, Feed.head_mk_cons]
    split <;> rfl

/-- **What is kept of a line** are the first tokens of it.  The token behind
them is the end of the line, or the one and only token that is reported. -/
theorem exists_forms_of_mem_line (hws : InLine ws) (he : e.kind.isLineEnd)
    (hs : s ∈ (parseTokens o (ws ++ [e])).program.toList) :
    ∃ h ts t r, ws ++ [e] = h :: ts ++ t :: r ∧ Forms (h :: ts) s ∧ ¬ o.drops h.kind ∧
      (parseTokens o (ws ++ [e])).faults =
        if t.kind.isLineEnd then [] else [.unexpectedToken .lineFeed t] := by
  obtain ⟨h, ts, t, r, hline, hdrops, hstatement, hfaults⟩ :=
    exists_statement_of_mem_line hws he hs
  obtain ⟨ts', htokens, hforms⟩ := Grammar.forms_of_statement hstatement
  obtain rfl : ts = ts' := List.append_cancel_right htokens
  exact ⟨h, ts, t, r, hline, hforms, hdrops, hfaults⟩

/-- What stands in front of a token of a line is in the line. -/
theorem Token.prefix_of_append {p r : List Token} {t : Token} (hline : ws ++ [e] = p ++ t :: r) :
    p <+: ws := by
  have hp : p <+: ws ++ [e] := hline ▸ List.prefix_append p (t :: r)
  rcases List.prefix_concat_iff.mp hp with rfl | hp
  · simp at hline
  · exact hp

/-- Only its end ends a line. -/
theorem Token.InLine.eq_of_append {p r : List Token} {t : Token} (hws : InLine ws)
    (hline : ws ++ [e] = p ++ t :: r) (ht : t.kind.isLineEnd) : ws = p := by
  obtain ⟨_ | ⟨u, q⟩, rfl⟩ := prefix_of_append hline
  · rw [List.append_nil]
  · rw [List.append_assoc, List.append_cancel_left_eq] at hline
    obtain ⟨rfl, -⟩ := List.cons.inj hline
    exact absurd ht (hws u (by simp))

/-- If nothing is reported, the whole line is kept. -/
theorem forms_of_faults_eq_nil (hws : InLine ws) (he : e.kind.isLineEnd)
    (hs : s ∈ (parseTokens o (ws ++ [e])).program.toList)
    (hfaults : (parseTokens o (ws ++ [e])).faults = []) : Forms ws s := by
  obtain ⟨h, ts, t, r, hline, hforms, -, hfaults'⟩ := exists_forms_of_mem_line hws he hs
  have ht : t.kind.isLineEnd := by
    by_contra ht
    rw [hfaults', if_neg ht] at hfaults
    cases hfaults
  rwa [hws.eq_of_append hline ht]

/-- Where malformed flags are reported, a line without a fault yields a
statement, if it is not blank and not dropped unread. -/
theorem exists_mem_line (hreport : o.reportMalformedFlags) {h : Token}
    (hws : InLine (h :: ws)) (he : e.kind.isLineEnd) (hdrops : ¬ o.drops h.kind)
    (hfaults : (parseTokens o (h :: ws ++ [e])).faults = []) :
    ∃ s, (parseTokens o (h :: ws ++ [e])).program.toList = [s] := by
  have hh := (Token.inLine_cons.mp hws).1
  obtain ⟨hstatements, hfaults'⟩ := parseTokens_line (o := o) (List.cons_ne_nil h ws) hws he
  rw [hfaults', List.cons_append, Feed.readLine_cons hh hdrops] at hfaults
  rw [hstatements, List.cons_append, Feed.readLine_cons hh hdrops]
  cases hread : Grammar.statement o h ⟨ws ++ [e], e⟩ with
  | error refusal =>
    cases refusal with
    | none => exact absurd hread (Grammar.Reports.statement hreport h _)
    | some f =>
      rw [hread] at hfaults
      cases hfaults
  | ok p =>
    refine ⟨p.1, ?_⟩
    rw [Feed.reading]
    split <;> rfl

/-- A statement is formed by tokens that stand together, with others behind
them. -/
theorem Token.Closed.exists_forms_of_mem {us : List Token} (hclosed : Closed us)
    (hs : s ∈ (parseTokens o us).program.toList) :
    ∃ as h ts bs, us = as ++ (h :: ts ++ bs) ∧ bs ≠ [] ∧ InLine (h :: ts) ∧
      Forms (h :: ts) s ∧ ¬ o.drops h.kind := by
  rw [hclosed.toList_parseTokens, List.mem_flatMap] at hs
  obtain ⟨l, hl, hs⟩ := hs
  obtain ⟨ws, e, hws, he, rfl⟩ := hclosed.exists_of_mem_lines hl
  obtain ⟨h, ts, t, r, hline, hforms, hdrops, -⟩ := exists_forms_of_mem_line hws he hs
  obtain ⟨before, behind, hlines⟩ := List.append_of_mem hl
  refine ⟨before.flatten, h, ts, t :: r ++ behind.flatten, ?_, by simp, ?_, hforms, hdrops⟩
  · rw [← Token.flatten_lines us, hlines, List.flatten_append, List.flatten_cons, hline,
      List.append_assoc]
  · exact fun u hu => hws u ((Token.prefix_of_append hline).subset hu)

/-- A statement is formed by tokens of the source. -/
theorem exists_forms_of_mem_parse {source : Text} (hs : s ∈ (parse o source).program.toList) :
    ∃ as h ts bs, Token.ofSource source = as ++ (h :: ts ++ bs) ∧ bs ≠ [] ∧ InLine (h :: ts) ∧
      Forms (h :: ts) s ∧ ¬ o.drops h.kind :=
  (Token.Closed.ofSource source).exists_forms_of_mem hs

/-- Where nothing is reported, every token that ends no line belongs to a
statement. -/
theorem exists_forms_of_mem_ofSource {source : Text} {t : Token}
    (hfaults : (parse .strict source).faults = []) (ht : t ∈ Token.ofSource source)
    (hline : ¬ t.kind.isLineEnd) :
    ∃ s ∈ (parse .strict source).program.toList, ∃ ts, Forms ts s ∧ t ∈ ts := by
  have hclosed := Token.Closed.ofSource source
  rw [← Token.flatten_lines (Token.ofSource source), List.mem_flatten] at ht
  obtain ⟨l, hl, ht⟩ := ht
  obtain ⟨ws, e, hws, he, rfl⟩ := hclosed.exists_of_mem_lines hl
  have hmem : t ∈ ws := by
    rcases List.mem_append.mp ht with ht | ht
    · exact ht
    · rw [List.mem_singleton.mp ht] at hline
      exact absurd he hline
  obtain ⟨h, ws, rfl⟩ := List.exists_cons_of_ne_nil (List.ne_nil_of_mem hmem)
  rw [parse, hclosed.faults_parseTokens, List.flatMap_eq_nil_iff] at hfaults
  obtain ⟨s, hs⟩ := exists_mem_line (o := .strict) rfl hws he (by simp [Options.drops_strict])
    (hfaults _ hl)
  have hs' : s ∈ (parseTokens .strict (h :: ws ++ [e])).program.toList :=
    hs ▸ List.mem_singleton_self s
  refine ⟨s, ?_, h :: ws, forms_of_faults_eq_nil hws he hs' (hfaults _ hl), hmem⟩
  rw [parse, hclosed.toList_parseTokens]
  exact List.mem_flatMap.mpr ⟨_, hl, hs'⟩

end Line

end Recipe
