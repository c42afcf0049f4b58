import Mathlib.Data.List.Chain
import Recipe.Proofs.Lexeme.Scan
import Recipe.Proofs.Statement.Forms

/-!
# Words that are written without a blank between them

A closing bracket or a comma is written directly behind the word in front of it.
Behind a string or another mark it is read as it was; behind a bare word the
reader takes it for a part of that word.  `Token.glue` says what is read where a
line of tokens is written, and `Token.scan_spell` that it says so rightly.
Tokens are read as they were exactly if no two neighbours are glued
(`Token.glue_of_isChain`, `Token.isChain_of_length_glue`).
-/

namespace Recipe

namespace Kind

/-- Whether tokens of this kind are written directly behind any other. -/
def isClosing : Kind → Bool
  | .rightBracket | .comma => true
  | _ => false

/-- Whether a token of kind `k` is read for itself behind one of kind `j`. -/
def Apart (j k : Kind) : Prop := ¬ (j.isBare ∧ k.isClosing)

instance (j k : Kind) : Decidable (Apart j k) := inferInstanceAs (Decidable (¬ _))

/-- A word with a character that no keyword has is no keyword. -/
theorem ofWord_of_mem {c : Char} {w : Text} (hc : ∀ k : Keyword, c ∉ k.text) (hw : c ∈ w) :
    ofWord w = .word := by
  unfold ofWord
  cases hw' : Keyword.ofText? w with
  | none => rfl
  | some k => exact absurd (Keyword.ofText?_eq_some_iff.mp hw' ▸ hw) (hc k)

/-- Closing marks are characters that words may hold and keywords do not. -/
theorem Admits.of_isClosing {k : Kind} {l : Text} (h : k.Admits l) (hk : k.isClosing) :
    ∃ c, l = [c] ∧ Lexeme.isPlain c ∧ ∀ k : Keyword, c ∉ k.text := by
  cases k with
  | rightBracket => exact ⟨']', h, rfl, fun k => by cases k <;> decide⟩
  | comma => exact ⟨',', h, rfl, fun k => by cases k <;> decide⟩
  | _ => cases hk

end Kind

namespace Token

/-- The tokens of a line as they are written. -/
def spell : List Token → Text
  | [] => []
  | t :: ts => t.word.written ++ Word.writtenList t.kind (ts.map Token.word)

/-- The tokens that are read where `h` and the tokens behind it are written. -/
def glue (h : Token) : List Token → List Token
  | [] => [h]
  | t :: ts =>
    if h.kind.isBare ∧ t.kind.isClosing then glue (.bare .word (h.literal ++ t.literal)) ts
    else h :: glue t ts

variable {h t : Token} {ts : List Token}

theorem glue_cons_of_apart (hapart : h.kind.Apart t.kind) : glue h (t :: ts) = h :: glue t ts := by
  rw [glue, if_neg hapart]

theorem glue_cons_of_not_apart (hglued : ¬ h.kind.Apart t.kind) :
    glue h (t :: ts) = glue (.bare .word (h.literal ++ t.literal)) ts := by
  rw [glue, if_pos (Classical.not_not.mp hglued)]

/-- Gluing does not add tokens. -/
theorem length_glue_le (h : Token) (ts : List Token) : (glue h ts).length ≤ ts.length + 1 := by
  induction ts generalizing h with
  | nil => exact le_refl _
  | cons t ts ih =>
    by_cases hapart : h.kind.Apart t.kind
    · rw [glue_cons_of_apart hapart]
      exact Nat.succ_le_succ (ih t)
    · rw [glue_cons_of_not_apart hapart]
      exact (ih _).trans (Nat.le_succ _)

/-- Tokens that stay apart are read as they were. -/
theorem glue_of_isChain (hchain : (h :: ts).IsChain fun t u => t.kind.Apart u.kind) :
    glue h ts = h :: ts := by
  induction ts generalizing h with
  | nil => rfl
  | cons t ts ih =>
    obtain ⟨hapart, hchain⟩ := List.isChain_cons_cons.mp hchain
    rw [glue_cons_of_apart hapart, ih hchain]

/-- If as many tokens are read as were written, they have stayed apart. -/
theorem isChain_of_length_glue (hlength : (glue h ts).length = ts.length + 1) :
    (h :: ts).IsChain fun t u => t.kind.Apart u.kind := by
  induction ts generalizing h with
  | nil => exact List.isChain_singleton h
  | cons t ts ih =>
    by_cases hapart : h.kind.Apart t.kind
    · rw [glue_cons_of_apart hapart] at hlength
      exact List.isChain_cons_cons.mpr ⟨hapart, ih (Nat.succ.inj hlength)⟩
    · rw [glue_cons_of_not_apart hapart] at hlength
      have hle := length_glue_le (.bare .word (h.literal ++ t.literal)) ts
      simp only [List.length_cons] at hlength
      omega

/-- The first token is read as it was, or it has become a part of a word. -/
theorem exists_glue_eq_cons (h : Token) (ts : List Token) :
    ∃ u us, glue h ts = u :: us ∧ (u = h ∨ u.kind = .word) := by
  induction ts generalizing h with
  | nil => exact ⟨h, [], rfl, .inl rfl⟩
  | cons t ts ih =>
    by_cases hapart : h.kind.Apart t.kind
    · exact ⟨h, glue t ts, glue_cons_of_apart hapart, .inl rfl⟩
    · obtain ⟨u, us, hglue, hu⟩ := ih (.bare .word (h.literal ++ t.literal))
      refine ⟨u, us, (glue_cons_of_not_apart hapart).trans hglue, .inr ?_⟩
      rcases hu with rfl | hu
      · rfl
      · exact hu

/-- What is glued may still stand in a line. -/
theorem isPiece_of_mem_glue (hh : h.IsPiece) (hts : ∀ t ∈ ts, t.IsPiece) :
    ∀ t ∈ glue h ts, t.IsPiece := by
  induction ts generalizing h with
  | nil => simpa [glue] using hh
  | cons t ts ih =>
    obtain ⟨ht, hts⟩ := List.forall_mem_cons.mp hts
    by_cases hapart : h.kind.Apart t.kind
    · rw [glue_cons_of_apart hapart]
      exact List.forall_mem_cons.mpr ⟨hh, ih ht hts⟩
    · rw [glue_cons_of_not_apart hapart]
      refine ih ?_ hts
      constructor
      · rintro ⟨⟩
      · rintro ⟨⟩

end Token

/-! ## Reading what is written without a blank -/

namespace Word

/-- Nothing but a closing mark stands directly behind a bare word. -/
theorem isTight_of_isBare {k : Kind} (h : k.isBare) (w : Word) :
    w.isTight k = w.kind.isClosing := by
  obtain ⟨kind, literal, span⟩ := w
  cases k with
  | word | keyword => cases kind <;> rfl
  | _ => cases h

/-- Of the word in front of a list it only matters whether it opens a
bracket. -/
theorem writtenList_congr {j k : Kind} (h : j = .leftBracket ↔ k = .leftBracket) (ws : List Word) :
    writtenList j ws = writtenList k ws := by
  cases ws with
  | nil => rfl
  | cons w ws =>
    have htight : w.isTight j = w.isTight k := by simp only [isTight, h]
    rw [writtenList, writtenList, htight]

/-- A bare word and a closing mark behind it make up a word. -/
theorem IsRegular.glue {h t : Token} (hh : h.word.IsRegular) (ht : t.word.IsRegular)
    (hbare : h.kind.isBare) (hclosing : t.kind.isClosing) :
    (Token.bare .word (h.literal ++ t.literal)).word.IsRegular where
  admits := by
    have hadmits : t.kind.Admits t.literal := ht.admits
    obtain ⟨c, hliteral, hplain, hkeyword⟩ := hadmits.of_isClosing hclosing
    constructor
    · rw [hliteral]
      exact (hh.admits.isWord hbare).append (.plain hplain .nil)
    · refine Kind.ofWord_of_mem hkeyword (List.mem_append_right _ ?_)
      rw [hliteral]
      exact List.mem_singleton_self c
  legal := by rintro ⟨⟩
  inLine := by rintro ⟨⟩

/-- Bare words and closing marks are written as they are. -/
theorem written_of_ne_string {w : Word} (h : w.kind ≠ .string) : w.written = w.literal := by
  rw [written, if_neg h]

end Word

namespace Token

theorem stops_nil : Lexeme.Stops [] := rfl

theorem stops_lineFeed (r : Text) : Lexeme.Stops ('\n' :: r) :=
  Lexeme.stops_cons (by decide) (by decide) r

theorem stops_space (r : Text) : Lexeme.Stops (' ' :: r) :=
  Lexeme.stops_cons (by decide) (by decide) r

theorem ne_string_of_isBare {k : Kind} (h : k.isBare) : k ≠ .string := by
  rintro rfl
  cases h

theorem ne_string_of_isClosing {k : Kind} (h : k.isClosing) : k ≠ .string := by
  rintro rfl
  cases h

/-- A token and the rest of its line, where the token is not glued to the next
one. -/
theorem scan_spell_cons {h t : Token} {ts : List Token} {r : Text} (hh : h.word.IsRegular)
    (hapart : h.kind.Apart t.kind) :
    scan (spell (h :: t :: ts) ++ r) = .bare h.kind h.literal :: scan (spell (t :: ts) ++ r) := by
  have hspell : spell (h :: t :: ts) ++ r =
      h.word.written ++
        ((if t.word.isTight h.kind then [] else [' ']) ++ (spell (t :: ts) ++ r)) := by
    simp only [spell, List.map_cons, Word.writtenList, List.append_assoc]
    split <;> rfl
  rw [hspell]
  by_cases htight : t.word.isTight h.kind
  · rw [if_pos htight, List.nil_append]
    refine Word.scan_written hh fun hbare => absurd htight ?_
    rw [Word.isTight_of_isBare (k := h.kind) hbare]
    intro hclosing
    exact hapart ⟨hbare, hclosing⟩
  · rw [if_neg htight, List.singleton_append, Word.scan_written hh fun _ => stops_space _,
      scan_cons_space]
    rfl

/-- A closing mark is written behind a bare word as the end of that word. -/
theorem spell_cons_of_not_apart {h t : Token} {ts : List Token} (hbare : h.kind.isBare)
    (hclosing : t.kind.isClosing) :
    spell (h :: t :: ts) = spell (.bare .word (h.literal ++ t.literal) :: ts) := by
  have htight : t.word.isTight h.kind := by
    rw [Word.isTight_of_isBare hbare]
    exact hclosing
  have hopening : t.word.kind = .leftBracket ↔ Kind.word = .leftBracket := by
    constructor
    · intro hkind
      rw [show t.kind = _ from hkind] at hclosing
      cases hclosing
    · rintro ⟨⟩
  rw [spell, spell, List.map_cons, Word.writtenList, if_pos htight,
    Word.written_of_ne_string (ne_string_of_isBare hbare),
    Word.written_of_ne_string (ne_string_of_isClosing hclosing),
    Word.writtenList_congr hopening, ← List.append_assoc]
  rfl

/-- **What a written line is read as**: the tokens of the line, with closing
marks glued to the bare words in front of them, where the text behind the line
does not go on with its last word. -/
theorem scan_spell {h : Token} {ts : List Token} {r : Text}
    (hts : ∀ t ∈ h :: ts, t.word.IsRegular) (hr : Lexeme.Stops r) :
    scan (spell (h :: ts) ++ r) = (glue h ts).map Move.forget.token ++ scan r := by
  induction ts generalizing h with
  | nil =>
    have hh := hts h List.mem_cons_self
    rw [show spell [h] = h.word.written ++ [] from rfl, List.append_nil,
      Word.scan_written hh fun _ => hr]
    rfl
  | cons t ts ih =>
    obtain ⟨hh, hts⟩ := List.forall_mem_cons.mp hts
    obtain ⟨ht, hts'⟩ := List.forall_mem_cons.mp hts
    by_cases hapart : h.kind.Apart t.kind
    · rw [scan_spell_cons hh hapart, ih hts, glue_cons_of_apart hapart]
      rfl
    · obtain ⟨hbare, hclosing⟩ := Classical.not_not.mp hapart
      rw [spell_cons_of_not_apart hbare hclosing, glue_cons_of_not_apart hapart]
      exact ih (List.forall_mem_cons.mpr ⟨hh.glue ht hbare hclosing, hts'⟩)

end Token

end Recipe
