import Mathlib.Data.List.Forall2
import MipsSource.Proofs.FloatText
import MipsSource.Proofs.ItemText

/-!
# The characters of rendered items

What is written of a well-formed item has no tab, newline or carriage return. Literals escape these
characters, and everything else is made of names, numbers and punctuation. This holds of every text
that is written, of numbers with a fraction too, and whether or not it is read back.

* `IsField`: a text without these characters; `RendersField`: the text of a rendering, if there is
  one, is such a text.
* `Operand.rendersField`, `Directive.rendersField`, `Item.rendersField`: every piece of an item.
* `Item.head_render`: a rendered item starts with no space.
-/

set_option autoImplicit false

namespace MipsSource

open Spelling

/-- A text without tabs, newlines and carriage returns. -/
def IsField (text : String) : Prop :=
  ∀ c ∈ text.toList, c ∉ ['\t', '\n', '\r']

instance : DecidablePred IsField := fun text =>
  List.decidableBAll (· ∉ ['\t', '\n', '\r']) text.toList

/-- What is rendered, if anything is, has no tabs, newlines and carriage returns. -/
def RendersField (rendering : Except Fault String) : Prop :=
  ∀ shown, rendering = .ok shown → IsField shown

/-! ## Results -/

section

variable {α β : Type}

theorem map_eq_ok {r : Except Fault α} {f : α → β} {y : β} (h : r.map f = .ok y) :
    ∃ x, r = .ok x ∧ f x = y := by
  cases r with
  | ok x =>
    cases h
    exact ⟨x, rfl, rfl⟩
  | error fault => cases h

/-- The results that steps give for the elements of a list, each with its element. -/
theorem forall₂_of_mapM {f : α → Except Fault β} {xs : List α} {ys : List β}
    (h : xs.mapM f = .ok ys) : List.Forall₂ (fun x y => x ∈ xs ∧ f x = .ok y) xs ys := by
  induction xs generalizing ys with
  | nil =>
    cases h
    exact .nil
  | cons x xs ih =>
    rw [List.mapM_cons] at h
    cases hx : f x with
    | error fault => rw [hx] at h; cases h
    | ok y =>
      cases hxs : xs.mapM f with
      | error fault => rw [hx, hxs] at h; cases h
      | ok rest =>
        rw [hx, hxs] at h
        cases h
        exact .cons ⟨List.mem_cons_self, hx⟩ ((ih hxs).imp fun _ _ hrest =>
          ⟨List.mem_cons_of_mem x hrest.1, hrest.2⟩)

theorem forall_right_of_forall₂ {R : α → β → Prop} {P : β → Prop} {xs : List α} {ys : List β}
    (h : List.Forall₂ R xs ys) (hP : ∀ x y, R x y → P y) : ∀ y ∈ ys, P y := by
  induction h with
  | nil => simp
  | cons hxy _ ih => exact List.forall_mem_cons.2 ⟨hP _ _ hxy, ih⟩

end

/-! ## Putting texts together -/

theorem IsField.append {a b : String} (ha : IsField a) (hb : IsField b) : IsField (a ++ b) := by
  intro c hc
  rw [String.toList_append, List.mem_append] at hc
  exact hc.elim (ha c) (hb c)

/-- A text of characters that `p` takes, where `p` takes none of the three. -/
theorem IsField.of_all {p : Char → Bool} {text : String}
    (hp : ['\t', '\n', '\r'].any p = false) (h : ∀ c ∈ text.toList, p c = true) :
    IsField text :=
  fun c hc hmem => List.any_eq_false.1 hp c hmem (h c hc)

theorem IsField.commaSeparated {pieces : List String} (h : ∀ s ∈ pieces, IsField s) :
    IsField (commaSeparated pieces) := by
  cases pieces with
  | nil => decide
  | cons piece pieces =>
    intro c hc
    rw [MipsSource.commaSeparated, Parser.toList_intercalate_cons] at hc
    rcases List.mem_append.1 hc with hc | hc
    · exact h piece List.mem_cons_self c hc
    · obtain ⟨s, hs, hc⟩ := List.mem_flatMap.1 hc
      have hfield : IsField (", " ++ s) :=
        .append (by decide) (h s (List.mem_cons_of_mem piece hs))
      exact hfield c (by rwa [String.toList_append])

namespace RendersField

variable {r : Except Fault String}

theorem ok {shown : String} (h : IsField shown) : RendersField (.ok shown) := by
  intro _ he
  cases he
  exact h

theorem map {f : String → String} (hr : RendersField r)
    (hf : ∀ s, IsField s → IsField (f s)) : RendersField (r.map f) := by
  intro shown h
  obtain ⟨s, hs, rfl⟩ := map_eq_ok h
  exact hf s (hr s hs)

theorem bind {next : String → Except Fault String} (hr : RendersField r)
    (hnext : ∀ s, IsField s → RendersField (next s)) : RendersField (r >>= next) := by
  intro shown h
  cases r with
  | ok s => exact hnext s (hr s rfl) shown h
  | error fault => cases h

/-- A text that is put together from those of the elements of a list. -/
theorem mapM {α : Type} {render : α → Except Fault String} {xs : List α}
    {f : List String → String} (h : ∀ x ∈ xs, RendersField (render x))
    (hf : ∀ pieces, (∀ s ∈ pieces, IsField s) → IsField (f pieces)) :
    RendersField ((xs.mapM render).map f) := by
  intro shown hs
  obtain ⟨pieces, hm, rfl⟩ := map_eq_ok hs
  exact hf pieces (forall_right_of_forall₂ (forall₂_of_mapM hm) fun x s hx => h x hx.1 s hx.2)

end RendersField

/-! ## Names, numbers and literals -/

theorem IsName.isField {name : String} (h : IsName name) : IsField name :=
  .of_all (by decide) (Lexeme.IsIdentifier.all_wordChar h)

theorem isField_text (i : Int) : IsField (Numeral.text i) := by
  refine .of_all (p := Numeral.numeralChars.contains) (by decide) fun c hc => ?_
  rw [Numeral.toList_text] at hc
  exact List.contains_iff_mem.2
    (Numeral.mem_numeralChars (Numeral.isDecimal_toDigits i.natAbs) _ c hc)

theorem Numeral.rendersField_write (i : Int) : RendersField (write i) := by
  intro shown h
  unfold write at h
  split at h
  · cases h
    exact isField_text i
  · cases h

theorem isField_quotedLiteral {mark : Char} (hm : mark = '"' ∨ mark = '\'') (text : String) :
    IsField (quotedLiteral mark text) := by
  have hmark : mark ∉ ['\t', '\n', '\r'] := by rcases hm with rfl | rfl <;> decide
  have hthree : ∀ c, c ∉ ['\n', '\t', '\r'] → c ∉ ['\t', '\n', '\r'] := by simp_all
  intro c hc
  rw [toList_quotedLiteral, List.cons_append, List.mem_cons, List.mem_append,
    List.mem_singleton] at hc
  rcases hc with rfl | hc | rfl
  · exact hmark
  · exact hthree c (Text.not_mem_of_mem_escape hm hc)
  · exact hmark

/-! ## Numbers with a fraction -/

/-- The characters of numbers with a fraction. -/
def Spelling.floatChars : List Char :=
  Numeral.numeralChars ++ ['.', 'e', 'E', '+']

section

variable {word : List Char}

theorem Spelling.IsDigits.subset {n : Nat} (h : IsDigits 10 word n) : word ⊆ floatChars :=
  fun c hc => List.mem_append_left _ (Numeral.mem_numeralChars_of_digit (h.isDecimal.2 c hc))

theorem Spelling.signs_subset {mark : List Char} {negative : Bool}
    (h : (mark, negative) ∈ signs) : mark ⊆ floatChars := by
  have hall : ∀ p ∈ signs, p.1 ⊆ floatChars := by decide
  exact hall _ h

theorem Spelling.IsExponent.subset {e : Int} (h : IsExponent word e) : word ⊆ floatChars := by
  obtain ⟨hletter, hs, hd⟩ := h
  have hletters : ['e', 'E'] ⊆ floatChars := by decide
  exact List.cons_subset.2 ⟨hletters hletter, List.append_subset.2 ⟨signs_subset hs, hd.subset⟩⟩

theorem Spelling.IsFraction.subset {coefficient : Nat} {exponent : Int}
    (h : IsFraction word coefficient exponent) : word ⊆ floatChars := by
  have hpoint : '.' ∈ floatChars := by decide
  cases h with
  | fraction hw hp =>
    exact List.append_subset.2 ⟨hw.subset, List.cons_subset.2 ⟨hpoint, hp.subset⟩⟩
  | both hw hp he =>
    exact List.append_subset.2 ⟨hw.subset,
      List.cons_subset.2 ⟨hpoint, List.append_subset.2 ⟨hp.subset, he.subset⟩⟩⟩
  | exponent hw he => exact List.append_subset.2 ⟨hw.subset, he.subset⟩

theorem Spelling.IsFloat.subset {x : Binary64} (h : IsFloat word x) : word ⊆ floatChars := by
  obtain ⟨hs, hf⟩ := h
  exact List.append_subset.2 ⟨signs_subset hs, hf.subset⟩

end

/-- The text of a double, be it finite, infinite or no number at all. -/
theorem Binary64.isField_text (x : Binary64) : IsField x.text := by
  rcases Nat.lt_trichotomy x.magnitude infinityBits with hlt | heq | hgt
  · obtain ⟨y, hy⟩ := isFloat_text hlt
    exact .of_all (p := floatChars.contains) (by decide) fun c hc =>
      List.contains_iff_mem.2 (hy.subset hc)
  · rcases text_infinity heq with h | h <;> rw [h] <;> decide
  · rw [text, if_pos hgt]
    decide

/-! ## Operands -/

theorem Register.isField_render (r : Register) : IsField r.render := by
  obtain ⟨i⟩ := r
  revert i
  decide

theorem Symbol.rendersField {s : Symbol} (h : IsName s.name) : RendersField s.render := by
  unfold render
  split
  · exact (Numeral.rendersField_write _).map fun t ht => .append (.append h.isField (by decide)) ht
  · split
    · exact (Numeral.rendersField_write _).map fun t ht =>
        .append (.append h.isField (by decide)) ht
    · exact .ok h.isField

theorem Displacement.rendersField {d : Displacement} (h : d.WellFormed) :
    RendersField d.render := by
  cases d with
  | immediate value => exact Numeral.rendersField_write value
  | symbol s => exact Symbol.rendersField h

theorem Operand.rendersField {o : Operand} (h : o.WellFormed) : RendersField o.render := by
  cases o with
  | register r => exact .ok r.isField_render
  | memory base d =>
    cases d with
    | none => exact .ok (.append (.append (by decide) base.isField_render) (by decide))
    | some d =>
      exact (Displacement.rendersField (h d rfl)).map fun t ht =>
        .append (.append (.append ht (by decide)) base.isField_render) (by decide)
  | immediate value => exact Numeral.rendersField_write value
  | symbol s => exact Symbol.rendersField h
  | character value => exact .ok (isField_quotedLiteral (.inr rfl) value)
  | float value => exact .ok value.isField_text

/-! ## Directives -/

namespace Datum

/-- Data that are written as they are: numbers of 32 bits, names, and numbers with a fraction. -/
def IsPlain : Datum → Prop
  | .int value => IsImmediate value
  | .repeated value count => IsImmediate value ∧ 1 ≤ count ∧ count ≤ 2147483647
  | .symbol s => IsName s.name
  | .float _ => True
  | .text name => IsName name

theorem isPlain_of_element {lo hi : Int} {symbols : Bool} {d : Datum}
    (hlo : IsImmediate lo) (hhi : IsImmediate hi) (h : d.IsElement lo hi symbols) : d.IsPlain := by
  have hrange : ∀ v, lo ≤ v ∧ v ≤ hi → IsImmediate v := fun v hv =>
    ⟨Int.le_trans hlo.1 hv.1, Int.le_trans hv.2 hhi.2⟩
  cases d with
  | int value => exact hrange value h
  | repeated value count => exact ⟨hrange value h.1, h.2⟩
  | symbol s => exact h.2
  | float value => exact h.elim
  | text value => exact h.elim

theorem rendersField {d : Datum} (h : d.IsPlain) : RendersField d.render := by
  cases d with
  | int value => exact Numeral.rendersField_write value
  | repeated value count =>
    exact (Numeral.rendersField_write value).bind fun v hv =>
      (Numeral.rendersField_write count).bind fun n hn => .ok (.append (.append hv (by decide)) hn)
  | symbol s => exact Symbol.rendersField h
  | float value => exact .ok value.isField_text
  | text name => exact .ok (IsName.isField h)

end Datum

namespace Directive

/-- **A directive quotes a text**, or its data are written as they are. -/
theorem WellFormed.quoted_or_plain {d : Directive} (h : d.WellFormed) :
    IsField d.name ∧ ((isQuoted d.name = true ∧ ∃ text, d.args = [.text text]) ∨
      (isQuoted d.name = false ∧ ∀ a ∈ d.args, a.IsPlain)) := by
  cases h with
  | plain hname =>
    have hall : ∀ name ∈ [".text", ".data", ".ktext", ".kdata"],
        IsField name ∧ isQuoted name = false := by decide
    exact ⟨(hall _ hname).1, .inr ⟨(hall _ hname).2, by simp⟩⟩
  | @string name text hname =>
    have hall : ∀ name ∈ [".ascii", ".asciiz"], IsField name ∧ isQuoted name = true := by decide
    exact ⟨(hall _ hname).1, .inl ⟨(hall _ hname).2, text, rfl⟩⟩
  | integers hmem _ hargs =>
    have hall : ∀ entry ∈ integerLists, IsField entry.1 ∧ isQuoted entry.1 = false ∧
        IsImmediate entry.2.1 ∧ IsImmediate entry.2.2.1 := by decide
    obtain ⟨hfield, hplain, hlo, hhi⟩ := hall _ hmem
    exact ⟨hfield, .inr ⟨hplain, fun a ha => Datum.isPlain_of_element hlo hhi (hargs a ha)⟩⟩
  | floats values hname _ =>
    have hall : ∀ name ∈ [".float", ".double"], IsField name ∧ isQuoted name = false := by decide
    refine ⟨(hall _ hname).1, .inr ⟨(hall _ hname).2, fun a ha => ?_⟩⟩
    obtain ⟨x, -, rfl⟩ := List.mem_map.1 ha
    exact trivial
  | @count name n hname hlo hhi =>
    have hall : ∀ name ∈ [".align", ".space"], IsField name ∧ isQuoted name = false := by decide
    refine ⟨(hall _ hname).1, .inr ⟨(hall _ hname).2, fun a ha => ?_⟩⟩
    rw [List.mem_singleton.1 ha]
    exact ⟨by omega, by omega⟩
  | globl hsymbol =>
    have hname : IsField ".globl" ∧ isQuoted ".globl" = false := by decide
    refine ⟨hname.1, .inr ⟨hname.2, fun a ha => ?_⟩⟩
    rw [List.mem_singleton.1 ha]
    exact hsymbol

theorem rendersField {d : Directive} (h : d.WellFormed) : RendersField d.render := by
  obtain ⟨hname, ⟨hquoted, text, hargs⟩ | ⟨hplain, hargs⟩⟩ := h.quoted_or_plain
  · rw [render, if_pos hquoted, hargs]
    exact .ok (.append (.append hname (by decide)) (isField_quotedLiteral (.inl rfl) text))
  · rw [render, if_neg (by rw [hplain]; decide)]
    refine .mapM (fun a ha => Datum.rendersField (hargs a ha)) fun pieces hpieces => ?_
    unfold plainText
    split
    · exact hname
    · exact .append (.append hname (by decide)) (.commaSeparated hpieces)

end Directive

/-! ## Items -/

/-- **No piece of an item breaks the line or the column it stands in.** -/
theorem Item.rendersField {i : Item} (h : i.WellFormed) : RendersField i.render := by
  cases i with
  | label name => exact .ok (.append (IsName.isField h) (by decide))
  | directive d => exact Directive.rendersField h
  | instruction i =>
    obtain ⟨hname, hoperands⟩ := h
    refine .mapM (fun entry he => Operand.rendersField (hoperands entry he))
      fun pieces hpieces => ?_
    unfold Instruction.plainText
    simp only
    split
    · exact hname.isField
    · exact .append (.append hname.isField (by decide)) (.commaSeparated hpieces)

/-- The name that an item starts with. -/
def Item.front : Item → String
  | .label name => name
  | .directive d => d.name
  | .instruction i => i.mnemonic

theorem Item.render_eq_front {i : Item} {shown : String} (h : i.render = .ok shown) :
    ∃ more, shown = i.front ++ more := by
  cases i with
  | label name =>
    cases h
    exact ⟨_, rfl⟩
  | directive d =>
    rw [render, Directive.render] at h
    split at h
    · split at h
      · cases h
      · cases h
        exact ⟨_, String.append_assoc ..⟩
      · cases h
    · obtain ⟨pieces, -, rfl⟩ := map_eq_ok h
      unfold Directive.plainText
      split
      · exact ⟨"", String.append_empty.symm⟩
      · exact ⟨_, String.append_assoc ..⟩
  | instruction i =>
    obtain ⟨pieces, -, rfl⟩ := map_eq_ok h
    unfold Instruction.plainText
    simp only
    split
    · exact ⟨"", String.append_empty.symm⟩
    · exact ⟨_, String.append_assoc ..⟩

theorem Directive.WellFormed.head_name {d : Directive} (h : d.WellFormed) :
    d.name.toList.head? = some '.' := by
  have hall : ∀ name ∈ table.map (·.1), name.toList.head? = some '.' := by decide
  refine hall _ ?_
  cases h with
  | plain hname =>
    have hsub : [".text", ".data", ".ktext", ".kdata"] ⊆ table.map (·.1) := by decide
    exact hsub hname
  | string _ hname =>
    have hsub : [".ascii", ".asciiz"] ⊆ table.map (·.1) := by decide
    exact hsub hname
  | integers hmem _ _ =>
    have hsub : integerLists.map (·.1) ⊆ table.map (·.1) := by decide
    exact hsub (List.mem_map_of_mem hmem)
  | floats _ hname _ =>
    have hsub : [".float", ".double"] ⊆ table.map (·.1) := by decide
    exact hsub hname
  | count hname _ _ =>
    have hsub : [".align", ".space"] ⊆ table.map (·.1) := by decide
    exact hsub hname
  | globl _ =>
    have hmem : ".globl" ∈ table.map (·.1) := by decide
    exact hmem

/-- **A rendered item starts with no space.** -/
theorem Item.head_render {i : Item} (h : i.WellFormed) {shown : String}
    (hs : i.render = .ok shown) : ∃ c rest, shown.toList = c :: rest ∧ c ≠ ' ' := by
  obtain ⟨more, rfl⟩ := render_eq_front hs
  have hfront : ∃ c rest, i.front.toList = c :: rest ∧ c ≠ ' ' := by
    have hname : ∀ {name : String}, IsName name → ∃ c rest, name.toList = c :: rest ∧ c ≠ ' ' := by
      intro name hname
      obtain ⟨c, rest, hc, hstart⟩ := hname.head
      exact ⟨c, rest, hc, Lexeme.ne_of_test hstart (by decide)⟩
    cases i with
    | label name => exact hname h
    | directive d =>
      obtain ⟨rest, hrest⟩ := List.head?_eq_some_iff.1 (Directive.WellFormed.head_name h)
      exact ⟨'.', rest, hrest, by decide⟩
    | instruction i => exact hname h.1
  obtain ⟨c, rest, hc, hne⟩ := hfront
  exact ⟨c, rest ++ more.toList, by rw [String.toList_append, hc, List.cons_append], hne⟩

end MipsSource
