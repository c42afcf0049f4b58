import Recipe.Keyword

/-!
# Kinds of token
-/

namespace Recipe

inductive Kind where
  /-- The end of the source. -/
  | textEnd
  /-- A line feed. -/
  | lineFeed
  /-- A piece of text that is no other token. -/
  | illegal
  /-- A bare word. -/
  | word
  /-- A text in single or double quotes. -/
  | string
  /-- The `#` that heads a comment. -/
  | hash
  | leftBracket
  | rightBracket
  | comma
  | keyword (k : Keyword)
deriving DecidableEq, Repr

namespace Kind

def all : List Kind :=
  [.textEnd, .lineFeed, .illegal, .word, .string, .hash, .leftBracket, .rightBracket, .comma] ++
    Keyword.all.map keyword

theorem mem_all (k : Kind) : k ∈ all := by
  cases k with
  | keyword k => simp [all, Keyword.mem_all]
  | _ => simp [all]

/-- The kind's name in token listings and messages. -/
def name : Kind → Text
  | .textEnd => "EOF".toList
  | .lineFeed => "EOL".toList
  | .illegal => "ILLEGAL".toList
  | .word => "EXPR".toList
  | .string => "STRING".toList
  | .hash => "COMMENT".toList
  | .leftBracket => "[".toList
  | .rightBracket => "]".toList
  | .comma => ",".toList
  | .keyword k => k.text

/-- The kind's name in the JSON and tree forms of a program; `Keyword` stands
for them all. -/
def tag : Kind → Text
  | .textEnd => "Eof".toList
  | .lineFeed => "Eol".toList
  | .illegal => "Illegal".toList
  | .word => "Expr".toList
  | .string => "String".toList
  | .hash => "Comment".toList
  | .leftBracket => "LBracket".toList
  | .rightBracket => "RBracket".toList
  | .comma => "Comma".toList
  | .keyword _ => "Keyword".toList

/-- The kind with its tag, and with the keyword in brackets if it is one. -/
def shown (k : Kind) : Text :=
  match k with
  | .keyword w => k.tag ++ '(' :: w.tag ++ [')']
  | _ => k.tag

/-- The kind of name `t`. -/
def ofName? (t : Text) : Option Kind := all.find? fun k => k.name = t

theorem ofName?_name (k : Kind) : ofName? k.name = some k := by
  cases k with
  | keyword k => cases k <;> decide
  | _ => decide

theorem name_injective {j k : Kind} (h : j.name = k.name) : j = k :=
  Option.some.inj ((ofName?_name j).symm.trans (h ▸ ofName?_name k))

/-- A bare word that spells a keyword is that keyword. -/
def ofWord (t : Text) : Kind :=
  match Keyword.ofText? t with
  | some k => .keyword k
  | none => .word

theorem ofWord_ne_textEnd (t : Text) : ofWord t ≠ .textEnd := by
  unfold ofWord
  split <;> simp

theorem ofWord_ne_string (t : Text) : ofWord t ≠ .string := by
  unfold ofWord
  split <;> simp

/-- Whether a line ends at a token of this kind. -/
def isLineEnd (k : Kind) : Bool := k = .lineFeed || k = .textEnd

end Kind

end Recipe
