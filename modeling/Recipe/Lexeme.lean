import Recipe.Token.Basic

/-!
# Lexemes

What the text behind a place splits into: a gap that says nothing, one lexeme,
and the rest.  Nothing is lost on the way (`append_splitGap`,
`text_append_split`) and a lexeme takes at least one character unless the text
has ended (`length_split_lt`).
-/

namespace Recipe

/-- A token before its place in the source is known. -/
structure Lexeme where
  kind : Kind
  literal : Text
  /-- What the lexeme takes of the source, quotes included. -/
  text : Text
deriving DecidableEq, Repr

namespace Lexeme

/-- Characters that separate tokens within a line. -/
def isSpacing (c : Char) : Bool := c = ' ' || c = '\t' || c = '\r'

/-- Characters that a word holds as they are.  What stands for invalid bytes is
not among them. -/
def isPlain (c : Char) : Bool := !(isSpacing c || c = '\n' || c = '\\' || c = Text.replacement)

/-- Splits off the gap a text starts with: blanks, and backslashes that join a
line to the next. -/
def splitGap : Text → Text × Text
  | '\\' :: '\n' :: t => let (gap, rest) := splitGap t; ('\\' :: '\n' :: gap, rest)
  | '\\' :: '\r' :: '\n' :: t => let (gap, rest) := splitGap t; ('\\' :: '\r' :: '\n' :: gap, rest)
  | c :: t =>
    if isSpacing c then let (gap, rest) := splitGap t; (c :: gap, rest)
    else ([], c :: t)
  | [] => ([], [])

/-- Splits off the longest word a text starts with.  A backslash belongs to it
together with the space behind it, and not otherwise. -/
def splitWord : Text → Text × Text
  | '\\' :: ' ' :: t => let (word, rest) := splitWord t; ('\\' :: ' ' :: word, rest)
  | c :: t =>
    if isPlain c then let (word, rest) := splitWord t; (c :: word, rest)
    else ([], c :: t)
  | [] => ([], [])

/-- A lexeme that is its own literal. -/
def verbatim (kind : Kind) (text : Text) : Lexeme := ⟨kind, text, text⟩

/-- The lexeme the quote `q` starts in front of `t`: a string up to the next
`q`, and otherwise everything there is. -/
def quoted (q : Char) (t : Text) : Lexeme × Text :=
  match t.cut? q with
  | some (body, rest) => (⟨.string, body, q :: (body ++ [q])⟩, rest)
  | none => (verbatim .illegal (q :: t), [])

/-- Splits off the lexeme a text without a gap starts with. -/
def split : Text → Lexeme × Text
  | [] => (verbatim .textEnd [], [])
  | '\n' :: t => (verbatim .lineFeed ['\n'], t)
  | '#' :: t => (verbatim .hash ['#'], t)
  | '[' :: t => (verbatim .leftBracket ['['], t)
  | ']' :: t => (verbatim .rightBracket [']'], t)
  | ',' :: t => (verbatim .comma [','], t)
  | '"' :: t => quoted '"' t
  | '\'' :: t => quoted '\'' t
  | c :: t =>
    match splitWord (c :: t) with
    | ([], _) => (verbatim .illegal [c], t)
    | (word, rest) => (verbatim (.ofWord word) word, rest)

/-- The token a lexeme at the place `p` is. -/
def toToken (x : Lexeme) (p : Place) : Token :=
  ⟨x.kind, x.literal, p.position, .ofBytes p.offset (p.offset + x.text.byteSize)⟩

theorem append_splitGap (t : Text) : (splitGap t).1 ++ (splitGap t).2 = t := by
  fun_induction splitGap t <;> simp_all

theorem append_splitWord (t : Text) : (splitWord t).1 ++ (splitWord t).2 = t := by
  fun_induction splitWord t <;> simp_all

theorem text_append_quoted (q : Char) (t : Text) :
    (quoted q t).1.text ++ (quoted q t).2 = q :: t := by
  unfold quoted
  split
  · next h => simp [(Text.cut?_eq_some_iff.1 h).1]
  · simp [verbatim]

theorem text_append_split (t : Text) : (split t).1.text ++ (split t).2 = t := by
  fun_cases split t with
  | case7 t => exact text_append_quoted '"' t
  | case8 t => exact text_append_quoted '\'' t
  | case9 c t _ _ _ _ _ _ _ rest h => simp_all [verbatim]
  | case10 c t _ _ _ _ _ _ _ word rest _ h =>
    have := append_splitWord (c :: t)
    simp_all [verbatim]
  | _ => rfl

theorem kind_quoted_ne_textEnd (q : Char) (t : Text) : (quoted q t).1.kind ≠ .textEnd := by
  unfold quoted
  split <;> simp [verbatim]

/-- Only the end of the text has no lexeme but the closing one. -/
theorem kind_split_eq_textEnd_iff {t : Text} : (split t).1.kind = .textEnd ↔ t = [] := by
  fun_cases split t with
  | case7 t => simpa using kind_quoted_ne_textEnd '"' t
  | case8 t => simpa using kind_quoted_ne_textEnd '\'' t
  | case10 c t _ _ _ _ _ _ _ word rest _ h => simp [verbatim, Kind.ofWord_ne_textEnd]
  | _ => simp [verbatim]

theorem text_split_ne_nil {t : Text} (h : t ≠ []) : (split t).1.text ≠ [] := by
  fun_cases split t with
  | case1 => exact absurd rfl h
  | case7 t => unfold quoted; split <;> simp [verbatim]
  | case8 t => unfold quoted; split <;> simp [verbatim]
  | case10 c t _ _ _ _ _ _ _ word rest hw h => simpa [verbatim] using hw
  | _ => simp [verbatim]

theorem length_split_lt {t : Text} (h : t ≠ []) : (split t).2.length < t.length := by
  have hlen := congrArg List.length (text_append_split t)
  have hpos := List.length_pos_iff.2 (text_split_ne_nil h)
  simp only [List.length_append] at hlen
  omega

theorem length_splitGap_le (t : Text) : (splitGap t).2.length ≤ t.length := by
  have hlen := congrArg List.length (append_splitGap t)
  simp only [List.length_append] at hlen
  omega

end Lexeme

end Recipe
