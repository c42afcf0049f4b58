import Recipe.Proofs.Lexeme.Sequence
import Recipe.Proofs.Lexeme.Word
import Recipe.Proofs.Place.Move
import Recipe.Statement.Written

/-!
# Scanning

`Token.scan` reads the tokens of a text and leaves out where they stand.  What
it gives for a text follows from the text alone, so it can be computed token by
token: a blank in front of a text does not matter (`scan_cons_space`), and what
is written for a token scans as that token (`scan_written`).
-/

namespace Recipe

open Lexeme (IsWord Stops)

namespace Kind

/-- The literals that tokens of a kind have, whatever source they stand in. -/
def Admits : Kind → Text → Prop
  | .textEnd, l => l = []
  | .lineFeed, l => l = ['\n']
  | .illegal, _ => True
  | .word, l => IsWord l ∧ ofWord l = .word
  | .string, l => '"' ∉ l ∨ '\'' ∉ l
  | .hash, l => l = ['#']
  | .leftBracket, l => l = ['[']
  | .rightBracket, l => l = [']']
  | .comma, l => l = [',']
  | .keyword k, l => l = k.text

/-- Whether tokens of this kind are words that stand without quotes. -/
def isBare : Kind → Bool
  | .word | .keyword _ => true
  | _ => false

theorem isBare_ofWord (w : Text) : (ofWord w).isBare := by
  unfold ofWord
  cases Keyword.ofText? w <;> rfl

theorem admits_ofWord {w : Text} (h : IsWord w) : (ofWord w).Admits w := by
  unfold ofWord
  cases hw : Keyword.ofText? w with
  | none => exact ⟨h, by rw [ofWord, hw]⟩
  | some k => exact (Keyword.ofText?_eq_some_iff.mp hw).symm

section Bare

variable {k : Kind} {l : Text}

theorem Admits.isWord (h : k.Admits l) (hk : k.isBare) : IsWord l := by
  cases k with
  | word => exact h.1
  | keyword k => exact h ▸ Lexeme.isWord_text k
  | _ => cases hk

theorem Admits.ofWord_eq (h : k.Admits l) (hk : k.isBare) : ofWord l = k := by
  cases k with
  | word => exact h.2
  | keyword k =>
    obtain rfl : l = k.text := h
    rw [ofWord, Keyword.ofText?_text]
  | _ => cases hk

end Bare

end Kind

namespace Lexeme

theorem admits_quoted {q : Char} (hq : q = '"' ∨ q = '\'') (t : Text) :
    (quoted q t).1.kind.Admits (quoted q t).1.literal := by
  unfold quoted
  split
  · rename_i body rest h
    have hbody := (Text.cut?_eq_some_iff.mp h).2
    rcases hq with rfl | rfl
    · exact .inl hbody
    · exact .inr hbody
  · exact trivial

/-- A text in quotes is a string, if it does not hold the quote. -/
theorem quoted_append {q : Char} {l : Text} (hq : q ∉ l) (r : Text) :
    quoted q (l ++ q :: r) = (⟨.string, l, q :: (l ++ [q])⟩, r) := by
  rw [quoted, Text.cut?_eq_some_iff.mpr ⟨rfl, hq⟩]

/-- Every lexeme has a literal that its kind admits. -/
theorem admits_split (t : Text) : (split t).1.kind.Admits (split t).1.literal := by
  fun_cases split t with
  | case7 t => exact admits_quoted (.inl rfl) t
  | case8 t => exact admits_quoted (.inr rfl) t
  | case9 => exact trivial
  | case10 c t _ hhash hleft hright hcomma hdouble hsingle word rest hword h =>
    have hmarks := not_mem_marks_iff.mpr ⟨hhash, hleft, hright, hcomma, hdouble, hsingle⟩
    exact Kind.admits_ofWord (isWord_split hmarks hword h)
  | _ => exact rfl

theorem admits_of_mem_sequence {t : Text} {p : Text × Lexeme} (h : p ∈ sequence t) :
    p.2.kind.Admits p.2.literal := by
  induction t using sequence.induct with
  | case1 t hgap =>
    rw [sequence_of_splitGap_eq_nil hgap] at h
    obtain rfl := List.mem_singleton.mp h
    exact rfl
  | case2 t hgap _ _ ih =>
    rw [sequence_of_splitGap_ne_nil hgap] at h
    rcases List.mem_cons.mp h with rfl | h
    · exact admits_split _
    · exact ih h

end Lexeme

namespace Token

/-- The tokens of a text, without their places. -/
def scan (t : Text) : List Token :=
  (Lexeme.sequence t).map fun p => .bare p.2.kind p.2.literal

theorem map_placed (p : Place) (xs : List (Text × Lexeme)) :
    (placed p xs).map Move.forget.token = xs.map fun p => .bare p.2.kind p.2.literal := by
  induction xs generalizing p with
  | nil => rfl
  | cons x xs ih => rw [placed, List.map_cons, ih]; rfl

/-- Scanning a source is reading it and forgetting the places. -/
theorem map_forget_ofSource (source : Text) :
    (ofSource source).map Move.forget.token = scan source := by
  rw [ofSource_eq_placed]
  exact map_placed _ _

theorem admits_of_mem_scan {t : Text} {u : Token} (h : u ∈ scan t) :
    u.kind.Admits u.literal := by
  obtain ⟨p, hp, rfl⟩ := List.mem_map.mp h
  exact Lexeme.admits_of_mem_sequence hp

theorem admits_of_mem_ofSource {source : Text} {t : Token} (h : t ∈ ofSource source) :
    t.kind.Admits t.literal := by
  have hscan : Move.forget.token t ∈ scan source :=
    map_forget_ofSource source ▸ List.mem_map_of_mem h
  rw [← Move.forget.kind_token t, ← Move.forget.literal_token t]
  exact admits_of_mem_scan hscan

/-! ## Scanning token by token -/

theorem scan_nil : scan [] = [.bare .textEnd []] := by
  rw [scan, Lexeme.sequence_of_splitGap_eq_nil rfl]
  rfl

/-- The gap in front of a text does not matter. -/
theorem scan_congr {t t' : Text} (h : (Lexeme.splitGap t).2 = (Lexeme.splitGap t').2) :
    scan t = scan t' := by
  rw [scan, scan]
  by_cases ht : (Lexeme.splitGap t).2 = []
  · rw [Lexeme.sequence_of_splitGap_eq_nil ht, Lexeme.sequence_of_splitGap_eq_nil (h ▸ ht)]
    rfl
  · have ht' : (Lexeme.splitGap t').2 ≠ [] := h ▸ ht
    rw [Lexeme.sequence_of_splitGap_ne_nil ht, Lexeme.sequence_of_splitGap_ne_nil ht', h]
    rfl

theorem scan_cons_space (t : Text) : scan (' ' :: t) = scan t :=
  scan_congr rfl

/-- A lexeme that no gap stands in front of is scanned first. -/
theorem scan_of_split {t r : Text} {x : Lexeme} (hgap : Lexeme.splitGap t = ([], t)) (ht : t ≠ [])
    (hsplit : Lexeme.split t = (x, r)) : scan t = .bare x.kind x.literal :: scan r := by
  rw [scan, Lexeme.sequence_of_splitGap_ne_nil (by rwa [hgap]), hgap, hsplit]
  rfl

theorem scan_cons_lineFeed (r : Text) : scan ('\n' :: r) = .bare .lineFeed ['\n'] :: scan r :=
  scan_of_split rfl (List.cons_ne_nil _ _) rfl

end Token

namespace Word

/-- Whether a word stands in a line of some source. -/
structure IsRegular (w : Word) : Prop where
  admits : w.kind.Admits w.literal
  legal : w.kind ≠ .illegal
  inLine : ¬ w.kind.isLineEnd

/-- A text in quotes scans as a string, if there are quotes for it. -/
theorem scan_quote {l : Text} (h : '"' ∉ l ∨ '\'' ∉ l) (r : Text) :
    Token.scan (quote l ++ r) = .bare .string l :: Token.scan r := by
  unfold quote
  split
  · rename_i hdouble
    have hsingle := h.resolve_left (not_not_intro hdouble)
    have hsplit : Lexeme.split ('\'' :: (l ++ '\'' :: r)) = _ := Lexeme.quoted_append hsingle r
    rw [List.cons_append, List.append_assoc, List.singleton_append]
    exact Token.scan_of_split rfl (List.cons_ne_nil _ _) hsplit
  · rename_i hdouble
    have hsplit : Lexeme.split ('"' :: (l ++ '"' :: r)) = _ := Lexeme.quoted_append hdouble r
    rw [List.cons_append, List.append_assoc, List.singleton_append]
    exact Token.scan_of_split rfl (List.cons_ne_nil _ _) hsplit

/-- **What is written is read**: the written form of a word scans as that word,
unless the text behind it goes on with it. -/
theorem scan_written {w : Word} {r : Text} (hw : w.IsRegular) (hr : w.kind.isBare → Stops r) :
    Token.scan (w.written ++ r) = .bare w.kind w.literal :: Token.scan r := by
  obtain ⟨k, l, s⟩ := w
  obtain ⟨hadmits, hlegal, hline⟩ := hw
  by_cases hbare : k.isBare
  · have hwritten : written ⟨k, l, s⟩ = l := by
      cases k with
      | string => cases hbare
      | _ => rfl
    have hword := hadmits.isWord hbare
    rw [hwritten, Token.scan_of_split (hword.splitGap_append r) (by simp [hword.ne_nil])
      (hword.split_append (hr hbare)), hadmits.ofWord_eq hbare]
    rfl
  · cases k with
    | textEnd | lineFeed => exact absurd rfl hline
    | illegal => exact absurd rfl hlegal
    | word | keyword => exact absurd rfl hbare
    | string => exact scan_quote hadmits r
    | hash | leftBracket | rightBracket | comma =>
      obtain rfl := hadmits
      exact Token.scan_of_split rfl (List.cons_ne_nil _ _) rfl

end Word

end Recipe
