import Recipe.Text.Basic

/-!
# Keywords

The reserved words that may head a line, and `AS`.  They are written in capitals
and no other way.
-/

namespace Recipe

inductive Keyword where
  | fromImage | asName | user | env | arg | copy | run | workdir | expose | entrypoint | cmd
deriving DecidableEq, Repr

namespace Keyword

def all : List Keyword :=
  [.fromImage, .asName, .user, .env, .arg, .copy, .run, .workdir, .expose, .entrypoint, .cmd]

theorem mem_all (k : Keyword) : k ∈ all := by cases k <;> decide

/-- The keyword as it is written in a recipe. -/
def text : Keyword → Text
  | .fromImage => "FROM".toList
  | .asName => "AS".toList
  | .user => "USER".toList
  | .env => "ENV".toList
  | .arg => "ARG".toList
  | .copy => "COPY".toList
  | .run => "RUN".toList
  | .workdir => "WORKDIR".toList
  | .expose => "EXPOSE".toList
  | .entrypoint => "ENTRYPOINT".toList
  | .cmd => "CMD".toList

/-- The keyword's name in the JSON and tree forms of a program. -/
def tag : Keyword → Text
  | .fromImage => "From".toList
  | .asName => "As".toList
  | .user => "User".toList
  | .env => "Env".toList
  | .arg => "Arg".toList
  | .copy => "Copy".toList
  | .run => "Run".toList
  | .workdir => "Workdir".toList
  | .expose => "Expose".toList
  | .entrypoint => "Entrypoint".toList
  | .cmd => "Cmd".toList

/-- The keyword written as `t`. -/
def ofText? (t : Text) : Option Keyword := all.find? fun k => k.text = t

theorem ofText?_text (k : Keyword) : ofText? k.text = some k := by cases k <;> decide

theorem ofText?_eq_some_iff {t : Text} {k : Keyword} : ofText? t = some k ↔ k.text = t := by
  refine ⟨fun h => by simpa using List.find?_some h, ?_⟩
  rintro rfl
  exact ofText?_text k

end Keyword

end Recipe
