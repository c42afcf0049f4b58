import Mathlib.Data.List.Basic
import Recipe.Json
import Recipe.Proofs.Text.Code

/-!
# JSON can be read one way

What is written of a JSON value says which value it is and where it ends, in
front of anything but a digit (`Json.readable`).  So no two values are written
alike (`Json.written_injective`).

## How the proof goes

The first character of a value tells what sort of value it is
(`Json.mark_eq_of_append`).  A string ends at a quote that no code of a
character starts with (`Json.isCode_quoteChar`), and a number where its digits
do.  Items and fields are rows between brackets: behind each there is a comma or
a line feed, so the number of rows can be told, and a number ends where its row
does (`Json.boxed_append_inj`).
-/

namespace Recipe.Json

open Text (EndsNumber)

/-! ## Strings -/

/-- The characters that do not stand for themselves in a string. -/
def escaped : List Char := '"' :: '\\' :: (List.range 0x20).map Char.ofNat

theorem quoteChar_of_notMem_escaped {c : Char} (hc : c ∉ escaped) : quoteChar c = [c] := by
  have hcontrol : ¬ c.toNat < 0x20 := by
    intro hlt
    refine hc (List.mem_cons_of_mem _ (List.mem_cons_of_mem _ (List.mem_map.mpr ?_)))
    exact ⟨c.toNat, List.mem_range.mpr hlt, Char.ofNat_toNat c⟩
  fun_cases quoteChar c with
  | case8 | case9 => omega
  | case10 => rfl
  | _ => exact absurd (by decide) hc

theorem isCode_quoteChar : Text.IsCode '"' quoteChar := by
  -- Not by a search through all characters.
  have hescape : escaped.Forall fun c => (quoteChar c).head? = some '\\' := by decide +kernel
  have hpairs : escaped.Forall fun c => escaped.Forall fun d =>
      quoteChar c <+: quoteChar d → c = d := by decide +kernel
  simp only [List.forall_iff_forall_mem] at hescape hpairs
  refine Text.isCode_of_escapes (hescape _) quoteChar_of_notMem_escaped (by decide) (by decide)
    (by decide) ?_
  intro c d x y hc hd heq
  rcases List.append_eq_append_iff.mp heq with ⟨u, hu, -⟩ | ⟨u, hu, -⟩
  · exact hpairs c hc d hd ⟨u, hu.symm⟩
  · exact (hpairs d hd c hc ⟨u, hu.symm⟩).symm

theorem quoted_append_inj {s t x y : Text} (heq : quoted s ++ x = quoted t ++ y) :
    s = t ∧ x = y := by
  simp only [quoted, List.cons_append, List.append_assoc, List.nil_append] at heq
  exact isCode_quoteChar.flatMap_append_inj (List.cons.inj heq).2

/-! ## What a value starts with -/

/-- What a value starts with, with `0` for any digit. -/
def mark : Json → Char
  | null => 'n'
  | number _ => '0'
  | string _ => '"'
  | array _ => '['
  | object _ => '\x7b'

theorem exists_written_eq_cons (level : Nat) (v : Json) :
    ∃ c t, written level v = c :: t ∧ (if c.isDigit then '0' else c) = v.mark := by
  cases v with
  | null => exact ⟨_, _, rfl, rfl⟩
  | number n =>
    obtain ⟨c, t, hdigits⟩ := List.exists_cons_of_ne_nil (Nat.toDigits_ne_nil (n := n) (b := 10))
    have hc : c.isDigit := Text.isDigit_of_mem_ofNat (hdigits ▸ List.mem_cons_self)
    exact ⟨c, t, hdigits, if_pos hc⟩
  | string t => exact ⟨_, _, rfl, rfl⟩
  | array vs => cases vs <;> exact ⟨_, _, rfl, rfl⟩
  | object fs =>
    cases fs with
    | nil => exact ⟨_, _, rfl, rfl⟩
    | cons f fs => exact ⟨_, _, rfl, rfl⟩

variable {level : Nat} {v w : Json} {x y : Text}

theorem mark_eq_of_append (heq : written level v ++ x = written level w ++ y) :
    v.mark = w.mark := by
  obtain ⟨c, t, hv, hmark⟩ := exists_written_eq_cons level v
  obtain ⟨d, u, hw, hmark'⟩ := exists_written_eq_cons level w
  rw [hv, hw, List.cons_append, List.cons_append] at heq
  rw [← hmark, ← hmark', (List.cons.inj heq).1]

/-! ## Items and fields -/

section Rows

variable {α : Type} {text : α → Text} {lead : Char} {rs ss : List α}

/-- Whether the text of something says what it is and where it ends, in front of
anything but a digit. -/
def Readable (text : α → Text) (r : α) : Prop :=
  ∀ ⦃s : α⦄ ⦃x y : Text⦄, EndsNumber x → EndsNumber y → text r ++ x = text s ++ y → r = s ∧ x = y

/-- Texts on lines of their own: `lead` stands before the first and a comma
before the others. -/
def rows (level : Nat) (text : α → Text) (lead : Char) : List α → Text
  | [] => []
  | r :: rs => lead :: newLine level ++ text r ++ rows level text ',' rs

theorem writtenItems_eq_rows (level : Nat) (lead : Char) (vs : List Json) :
    writtenItems level lead vs = rows level (written level) lead vs := by
  induction vs generalizing lead with
  | nil => rfl
  | cons v vs ih => rw [writtenItems, rows, ih]

/-- A field without what stands in front of it. -/
def writtenField (level : Nat) (f : Text × Json) : Text :=
  quoted f.1 ++ ": ".toList ++ written level f.2

theorem writtenFields_eq_rows (level : Nat) (lead : Char) (fs : List (Text × Json)) :
    writtenFields level lead fs = rows level (writtenField level) lead fs := by
  induction fs generalizing lead with
  | nil => rfl
  | cons f fs ih => simp only [writtenFields, rows, ih, writtenField, List.append_assoc]

/-- What stands behind a row does not start with a digit. -/
theorem endsNumber_rows (hlead : ¬ lead.isDigit) (rs : List α) (x : Text) :
    EndsNumber (rows level text lead rs ++ '\n' :: x) := by
  cases rs with
  | nil => exact Text.endsNumber_cons (by decide) x
  | cons r rs => exact Text.endsNumber_cons hlead _

/-- Rows can be told apart from the new line behind them if each of them can be
told apart from anything but a digit. -/
theorem rows_append_inj (hlead : lead ≠ '\n')
    (hrs : ∀ r ∈ rs, Readable text r)
    (heq : rows level text lead rs ++ '\n' :: x = rows level text lead ss ++ '\n' :: y) :
    rs = ss ∧ x = y := by
  induction rs generalizing lead ss with
  | nil =>
    cases ss with
    | nil => exact ⟨rfl, (List.cons.inj heq).2⟩
    | cons s ss => exact absurd (List.cons.inj heq).1.symm hlead
  | cons r rs ih =>
    obtain ⟨hr, hrs⟩ := List.forall_mem_cons.mp hrs
    cases ss with
    | nil => exact absurd (List.cons.inj heq).1 hlead
    | cons s ss =>
      simp only [rows, List.append_assoc, List.cons_append] at heq
      have hrow := List.append_cancel_left (List.cons.inj heq).2
      obtain ⟨rfl, hrest⟩ :=
        hr (endsNumber_rows (by decide) rs x) (endsNumber_rows (by decide) ss y) hrow
      obtain ⟨rfl, rfl⟩ := ih (by decide) hrs hrest
      exact ⟨rfl, rfl⟩

/-- Rows between brackets, which stand side by side if there are no rows. -/
def boxed (level : Nat) (opening closing : Char) (text : α → Text) : List α → Text
  | [] => [opening, closing]
  | r :: rs => rows (level + 1) text opening (r :: rs) ++ newLine level ++ [closing]

theorem boxed_append_inj {opening closing : Char} (hopening : opening ≠ '\n')
    (hclosing : closing ≠ '\n')
    (hrs : ∀ r ∈ rs, Readable text r)
    (heq : boxed level opening closing text rs ++ x = boxed level opening closing text ss ++ y) :
    rs = ss ∧ x = y := by
  cases rs with
  | nil =>
    cases ss with
    | nil => exact ⟨rfl, List.append_cancel_left heq⟩
    | cons s ss => exact absurd (List.cons.inj (List.cons.inj heq).2).1 hclosing
  | cons r rs =>
    cases ss with
    | nil => exact absurd (List.cons.inj (List.cons.inj heq).2).1.symm hclosing
    | cons s ss =>
      simp only [boxed, newLine, List.append_assoc, List.cons_append] at heq
      obtain ⟨hrows, hrest⟩ := rows_append_inj hopening hrs heq
      exact ⟨hrows, by simpa using hrest⟩

end Rows

theorem written_array (level : Nat) (vs : List Json) :
    written level (array vs) = boxed level '[' ']' (written (level + 1)) vs := by
  cases vs with
  | nil => rfl
  | cons v vs => rw [written, boxed, writtenItems_eq_rows]

theorem written_object (level : Nat) (fs : List (Text × Json)) :
    written level (object fs) = boxed level '\x7b' '\x7d' (writtenField (level + 1)) fs := by
  cases fs with
  | nil => rfl
  | cons f fs => rw [written, boxed, writtenFields_eq_rows]

/-! ## Values -/

theorem readable_null : Readable (written level) null := by
  intro w x y _ _ heq
  have hmark := mark_eq_of_append heq
  cases w with
  | null => exact ⟨rfl, List.append_cancel_left heq⟩
  | _ => simp [mark] at hmark

theorem readable_number (n : Nat) : Readable (written level) (number n) := by
  intro w x y hx hy heq
  have hmark := mark_eq_of_append heq
  cases w with
  | number m =>
    obtain ⟨rfl, rfl⟩ := Text.ofNat_append_inj hx hy heq
    exact ⟨rfl, rfl⟩
  | _ => simp [mark] at hmark

theorem readable_string (t : Text) : Readable (written level) (string t) := by
  intro w x y _ _ heq
  have hmark := mark_eq_of_append heq
  cases w with
  | string u =>
    obtain ⟨rfl, rfl⟩ := quoted_append_inj heq
    exact ⟨rfl, rfl⟩
  | _ => simp [mark] at hmark

theorem readable_array {vs : List Json} (hvs : ∀ v ∈ vs, Readable (written (level + 1)) v) :
    Readable (written level) (array vs) := by
  intro w x y _ _ heq
  have hmark := mark_eq_of_append heq
  cases w with
  | array ws =>
    rw [written_array, written_array] at heq
    obtain ⟨rfl, rfl⟩ := boxed_append_inj (by decide) (by decide) hvs heq
    exact ⟨rfl, rfl⟩
  | _ => simp [mark] at hmark

theorem readable_field {f : Text × Json} (hf : Readable (written level) f.2) :
    Readable (writtenField level) f := by
  intro g x y hx hy heq
  simp only [writtenField, List.append_assoc] at heq
  obtain ⟨hname, hbehind⟩ := quoted_append_inj heq
  obtain ⟨hvalue, rfl⟩ := hf hx hy (List.append_cancel_left hbehind)
  exact ⟨Prod.ext hname hvalue, rfl⟩

theorem readable_object {fs : List (Text × Json)}
    (hfs : ∀ f ∈ fs, Readable (writtenField (level + 1)) f) :
    Readable (written level) (object fs) := by
  intro w x y _ _ heq
  have hmark := mark_eq_of_append heq
  cases w with
  | object gs =>
    rw [written_object, written_object] at heq
    obtain ⟨rfl, rfl⟩ := boxed_append_inj (by decide) (by decide) hfs heq
    exact ⟨rfl, rfl⟩
  | _ => simp [mark] at hmark

mutual

/-- Every value can be told apart from what stands behind it. -/
theorem readable : (level : Nat) → (v : Json) → Readable (written level) v
  | _, null => readable_null
  | _, number n => readable_number n
  | _, string t => readable_string t
  | level, array vs => readable_array (readable_items (level + 1) vs)
  | level, object fs => readable_object (readable_fields (level + 1) fs)

theorem readable_items : (level : Nat) → (vs : List Json) → ∀ v ∈ vs, Readable (written level) v
  | _, [] => List.forall_mem_nil _
  | level, v :: vs => List.forall_mem_cons.mpr ⟨readable level v, readable_items level vs⟩

theorem readable_fields :
    (level : Nat) → (fs : List (Text × Json)) → ∀ f ∈ fs, Readable (writtenField level) f
  | _, [] => List.forall_mem_nil _
  | level, (_, v) :: fs =>
    List.forall_mem_cons.mpr ⟨readable_field (readable level v), readable_fields level fs⟩

end

/-- **What is written of a value says which value it is.** -/
theorem written_injective (level : Nat) : Function.Injective (written level) := by
  intro v w h
  have hend : EndsNumber [] := fun c hc => nomatch hc
  exact (readable level v hend hend (congrArg (· ++ []) h)).1

end Recipe.Json
