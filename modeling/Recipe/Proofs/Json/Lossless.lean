import Recipe.Proofs.Json.Readable
import Recipe.Report

/-!
# The JSON form of a program loses nothing

Programs with the same JSON are the same (`Program.json_inj`), whatever their
fields hold, and so are programs that are printed alike as JSON
(`Program.print_json_inj`).  A part of a program has the same fields whenever it
has the same form, so its JSON is compared field by field.  The forms of
statements are told by their tags, the two sorts of kinds by being an object or
a string, and what is missing by `null`, which no part is written as.
-/

namespace Recipe

/-- What is asked of a printer of JSON: that it prints every value as it is
written, with two spaces for every level, the fields of an object in their
order, and no characters in strings but those that a JSON string may hold as
they are. -/
def Json.IsPretty (print : Json → Text) : Prop := ∀ v, print v = v.written 0

/-! ## Tags -/

namespace Kind

/-- The kind with the given JSON. -/
def ofJson? : Json → Option Kind
  | .string t => all.find? fun k => k.tag = t
  | .object [(_, .string t)] => (Keyword.all.find? fun k => k.tag = t).map keyword
  | _ => none

theorem ofJson?_json (k : Kind) : ofJson? k.json = some k := by
  cases k with
  | keyword k => cases k <;> decide
  | _ => decide

theorem json_inj {j k : Kind} : j.json = k.json ↔ j = k :=
  ⟨fun h => Option.some.inj ((ofJson?_json j).symm.trans (h ▸ ofJson?_json k)), congrArg json⟩

end Kind

theorem Keyword.tag_inj {j k : Keyword} : j.tag = k.tag ↔ j = k := by
  have htags : ∀ j ∈ all, ∀ k ∈ all, j.tag = k.tag → j = k := by decide
  exact ⟨htags j (mem_all j) k (mem_all k), congrArg tag⟩

/-! ## Parts of statements -/

theorem Span.json_inj {s t : Span} : s.json = t.json ↔ s = t := by
  cases s
  cases t
  simp [Span.json]

theorem Identifier.json_inj {i j : Identifier} : i.json = j.json ↔ i = j := by
  cases i
  cases j
  simp [Identifier.json, Span.json_inj]

theorem Flag.json_inj {f g : Flag} : f.json = g.json ↔ f = g := by
  cases f
  cases g
  simp [Flag.json, Span.json_inj]

theorem Word.json_inj {v w : Word} : v.json = w.json ↔ v = w := by
  cases v
  cases w
  simp [Word.json, Kind.json_inj, Span.json_inj]

section Many

variable {α : Type} {f : α → Json}

/-- A part that may be missing is told from a missing one. -/
theorem Json.nullable_map_inj (hf : ∀ {a b}, f a = f b ↔ a = b) (hnull : ∀ a, f a ≠ null)
    {a? b? : Option α} : nullable (a?.map f) = nullable (b?.map f) ↔ a? = b? := by
  cases a? with
  | none =>
    cases b? with
    | none => simp
    | some b => simpa [nullable] using (hnull b).symm
  | some a =>
    cases b? with
    | none => simpa [nullable] using hnull a
    | some b => simpa [nullable] using hf

theorem Json.map_inj (hf : ∀ {a b}, f a = f b ↔ a = b) {as bs : List α} :
    as.map f = bs.map f ↔ as = bs :=
  List.map_inj_right fun _ _ => hf.mp

end Many

theorem Json.nullable_string_inj {t? u? : Option Text} :
    nullable (t?.map string) = nullable (u?.map string) ↔ t? = u? :=
  nullable_map_inj (Iff.of_eq (string.injEq ..)) nofun

theorem Identifier.nullable_json_inj {i? j? : Option Identifier} :
    Json.nullable (i?.map json) = Json.nullable (j?.map json) ↔ i? = j? :=
  Json.nullable_map_inj json_inj nofun

/-! ## Statements and programs -/

namespace Statement

variable {s t : Statement}

/-- The tags of all forms, in their order. -/
def tags : List Text :=
  ["Comment".toList, "From".toList, "Arg".toList, "Copy".toList, "Unparsed".toList]

theorem idxOf_tag (s : Statement) : tags.idxOf s.tag = s.ctorIdx := by cases s <;> rfl

/-- Statements with the same tag have the same form, so their fields are
compared one by one. -/
theorem eq_of_fields (htag : s.tag = t.tag) (hfields : s.fields = t.fields)
    (hspan : s.span = t.span) : s = t := by
  -- Where the forms differ, so do the tags.
  have hform : s.ctorIdx = t.ctorIdx := by rw [← idxOf_tag, ← idxOf_tag, htag]
  cases s with
  | comment value span =>
    cases t with
    | comment value' span' =>
      obtain rfl : value = value' := by simpa [fields, Identifier.json_inj] using hfields
      exact congrArg _ hspan
    | _ => cases hform
  | fromImage flags source stage? span =>
    cases t with
    | fromImage flags' source' stage?' span' =>
      obtain ⟨rfl, rfl, rfl⟩ : flags = flags' ∧ source = source' ∧ stage? = stage?' := by
        simpa [fields, Json.map_inj Flag.json_inj, Identifier.json_inj,
          Identifier.nullable_json_inj] using hfields
      exact congrArg _ hspan
    | _ => cases hform
  | arg word name value? valueWord? span =>
    cases t with
    | arg word' name' value?' valueWord?' span' =>
      obtain ⟨rfl, rfl, rfl, rfl⟩ :
          word = word' ∧ name = name' ∧ value? = value?' ∧ valueWord? = valueWord?' := by
        simpa [fields, Identifier.json_inj, Json.nullable_string_inj,
          Identifier.nullable_json_inj] using hfields
      exact congrArg _ hspan
    | _ => cases hform
  | copy flags source dest span =>
    cases t with
    | copy flags' source' dest' span' =>
      obtain ⟨rfl, rfl, rfl⟩ : flags = flags' ∧ source = source' ∧ dest = dest' := by
        simpa [fields, Json.map_inj Flag.json_inj, Identifier.json_inj] using hfields
      exact congrArg _ hspan
    | _ => cases hform
  | other keyword words span =>
    cases t with
    | other keyword' words' span' =>
      obtain ⟨rfl, rfl⟩ : keyword = keyword' ∧ words = words' := by
        simpa [fields, Keyword.tag_inj, Json.map_inj Word.json_inj] using hfields
      exact congrArg _ hspan
    | _ => cases hform

theorem json_inj : s.json = t.json ↔ s = t := by
  refine ⟨fun h => ?_, congrArg json⟩
  simp only [json, Json.object.injEq, List.cons_append, List.cons.injEq, Prod.mk.injEq,
    Json.string.injEq, true_and] at h
  obtain ⟨htag, hbehind⟩ := h
  obtain ⟨hfields, hspan⟩ := List.append_inj' hbehind rfl
  simp only [List.cons.injEq, Prod.mk.injEq, true_and, and_true] at hspan
  exact eq_of_fields htag hfields (Span.json_inj.mp hspan)

end Statement

namespace Program

variable {p q : Program}

theorem json_inj : p.json = q.json ↔ p = q := by
  cases p
  cases q
  simp [json, Json.map_inj Statement.json_inj]

/-- **Printing a program as JSON loses nothing**: with a printer that prints
JSON as it is written, no two programs are printed alike, whatever their parts
hold. -/
theorem print_json_inj {print : Json → Text} (hprint : Json.IsPretty print) :
    p.printWith print .json = q.printWith print .json ↔ p = q := by
  rw [printWith, printWith, hprint, hprint, (Json.written_injective 0).eq_iff]
  exact json_inj

/-- A value that is missing and an empty one, of a word with a quote and a line
feed. -/
theorem print_json_inj_null :
    let word : Identifier := ⟨"a\"\n".toList, "a\"\n".toList, ⟨4, 7⟩⟩
    let p : Program := ⟨[], [.arg word word.value none none ⟨0, 7⟩]⟩
    let q : Program := ⟨[], [.arg word word.value (some []) none ⟨0, 7⟩]⟩
    Json.IsPretty (Json.written 0) ∧ p ≠ q ∧
      p.printWith (Json.written 0) .json ≠ q.printWith (Json.written 0) .json := by
  intro word p q
  have hpretty : Json.IsPretty (Json.written 0) := fun _ => rfl
  have hne : p ≠ q := by decide
  exact ⟨hpretty, hne, mt (print_json_inj hpretty).mp hne⟩

end Program

end Recipe
