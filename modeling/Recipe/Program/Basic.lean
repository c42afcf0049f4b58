import Recipe.Statement.Written

/-!
# Programs

A program is the statements of a recipe in the order of their lines.  They are
recorded one by one (`Program.record`), and comments go to the directives as
long as no other statement has been recorded.
-/

namespace Recipe

structure Program where
  directives : List Statement
  statements : List Statement
deriving DecidableEq, Repr

namespace Program

def empty : Program := ⟨[], []⟩

/-- Records a statement: a comment is a directive as long as there are no
statements. -/
def record (p : Program) (s : Statement) : Program :=
  if s.isComment && p.statements.isEmpty then { p with directives := p.directives ++ [s] }
  else { p with statements := p.statements ++ [s] }

/-- The program that has recorded the given statements, one by one. -/
def ofStatements (ss : List Statement) : Program := ss.foldl record empty

/-- Directives and statements, in the order of their lines. -/
def toList (p : Program) : List Statement := p.directives ++ p.statements

def isEmpty (p : Program) : Bool := p.directives.isEmpty && p.statements.isEmpty

/-- The text of the token that introduces the first statement; directives do not
count. -/
def head (p : Program) : Text := (p.statements.head?.map Statement.head).getD []

/-- The program as a recipe, a line for each statement. -/
def written (p : Program) : Text := p.toList.flatMap fun s => s.written ++ ['\n']

end Program

end Recipe
