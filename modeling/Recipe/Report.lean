import Recipe.Program.Json
import Recipe.Program.Outline
import Recipe.Text.Quoted
import Recipe.Token.Basic

/-!
# Reports

What is printed about a program or a list of tokens.
-/

namespace Recipe

/-- The forms a program is printed in. -/
inductive Format where
  /-- A recipe. -/
  | text
  /-- An outline of all parts. -/
  | debug
  | json
deriving DecidableEq, Repr

namespace Format

def all : List Format := [.text, .debug, .json]

def name : Format → Text
  | .text => "text".toList
  | .debug => "debug".toList
  | .json => "json".toList

/-- The format of the given name. -/
def ofName? (t : Text) : Option Format := all.find? fun f => f.name = t

/-- The format of the given name in capitals or small letters. -/
def ofAnyCase? (t : Text) : Option Format := ofName? (t.map Char.toLower)

end Format

/-- A program in the given form, where `print` prints JSON. -/
def Program.printWith (print : Json → Text) (p : Program) : Format → Text
  | .text => p.written
  | .debug => p.outline.written 0
  | .json => print p.json

def Program.print (p : Program) (f : Format) : Text := p.printWith (Json.written 0) f

/-- A token as its position, its kind and its literal in quotes. -/
def Token.listed (t : Token) : Text :=
  t.position.text ++ ' ' :: t.kind.name ++ ' ' :: t.literal.quoted

/-- Tokens on lines of their own. -/
def Token.listing (ts : List Token) : Text := ts.flatMap fun t => t.listed ++ ['\n']

end Recipe
