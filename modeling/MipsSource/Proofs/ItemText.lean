import MipsSource.Item.Parser
import MipsSource.Proofs.OperandText
import MipsSource.Proofs.SpelledDirectives

/-!
# Reading back items

A directive or an instruction is written as its name, a space and its data with commas between them;
a label as its name and a colon. For instructions and lists of integers this is one of the spellings
that are read; the other directives have a single datum. Such a line is read back by the right kind
of item: no label takes it, because no colon follows its name, and a directive and an instruction
differ in their first character.

* `Item.Writable`: no number with a fraction, and no symbol with an offset that cannot be written.
* `Parser.item_readsBack`: every well-formed item that can be written is read back, but for columns.
-/

set_option autoImplicit false

namespace MipsSource

open Lexeme (gap)
open Spelling

/-! ## Items that can be written -/

/-- There is no number with a fraction, and the offset of a symbol can be written. -/
def Datum.Writable : Datum → Prop
  | .int _ => True
  | .float _ => False
  | .text _ => True
  | .symbol s => s.Writable
  | .repeated _ _ => True

instance : DecidablePred Datum.Writable
  | .int _ => inferInstanceAs (Decidable True)
  | .float _ => inferInstanceAs (Decidable False)
  | .text _ => inferInstanceAs (Decidable True)
  | .symbol s => inferInstanceAs (Decidable s.Writable)
  | .repeated _ _ => inferInstanceAs (Decidable True)

namespace Item

/-- Everything in the item can be written. -/
def Writable : Item → Prop
  | .label _ => True
  | .directive d => ∀ a ∈ d.args, a.Writable
  | .instruction i => ∀ placed ∈ i.operands, placed.1.Writable

instance : DecidablePred Writable
  | .label _ => inferInstanceAs (Decidable True)
  | .directive d => inferInstanceAs (Decidable (∀ a ∈ d.args, a.Writable))
  | .instruction i => inferInstanceAs (Decidable (∀ placed ∈ i.operands, placed.1.Writable))

/-- The item with all its columns set to zero. -/
def eraseColumns : Item → Item
  | .instruction i =>
    .instruction { i with operands := i.operands.map fun placed => (placed.1, 0), col := 0 }
  | item => item

end Item

/-! ## Lists -/

namespace Parser

variable {α γ : Type}

/-- What is written of the elements of a list, with commas between them. -/
def commaText (render : γ → Except Fault String) (x : γ) (xs : List γ) : List Char :=
  written (render x) ++ xs.flatMap fun y => ", ".toList ++ written (render y)

theorem toList_intercalate_cons (sep piece : String) (pieces : List String) :
    (sep.intercalate (piece :: pieces)).toList =
      piece.toList ++ pieces.flatMap fun s => sep.toList ++ s.toList := by
  rw [String.toList_intercalate]
  induction pieces generalizing piece with
  | nil => simp
  | cons s pieces ih =>
    rw [List.map_cons, List.map_cons, List.intercalate_cons_cons, ← List.map_cons, ih,
      List.flatMap_cons, List.append_assoc, List.append_assoc]

theorem mapM_render {render : γ → Except Fault String} {xs : List γ}
    (h : ∀ x ∈ xs, render x = .ok (String.ofList (written (render x)))) :
    xs.mapM render = .ok (xs.map fun x => String.ofList (written (render x))) := by
  induction xs with
  | nil => rfl
  | cons x xs ih =>
    rw [List.mapM_cons, ih fun y hy => h y (List.mem_cons_of_mem x hy), h x List.mem_cons_self]
    simp [written, bind, Except.bind, pure, Except.pure]

theorem toList_commaSeparated_render (render : γ → Except Fault String) (x : γ) (xs : List γ) :
    (commaSeparated ((x :: xs).map fun y => String.ofList (written (render y)))).toList =
      commaText render x xs := by
  rw [List.map_cons, commaSeparated, toList_intercalate_cons, List.flatMap_map]
  simp [commaText]

theorem commaText_inline {S : γ → List Char → Prop} {render : γ → Except Fault String} {x : γ}
    {xs : List γ} (hback : ∀ y ∈ x :: xs, WrittenAs (render y) (S y)) :
    IsInline (commaText render x xs) := by
  refine (hback x List.mem_cons_self).inline.append ?_ ?_
  · simp only [List.mem_flatMap, not_exists, not_and, List.mem_append, not_or]
    intro y hy
    exact ⟨by decide, (hback y (List.mem_cons_of_mem x hy)).inline.no_tab⟩
  · simp only [List.mem_flatMap, not_exists, not_and, List.mem_append, not_or]
    intro y hy
    exact ⟨by decide, (hback y (List.mem_cons_of_mem x hy)).inline.no_newline⟩

section
variable {E : Nat → List Char → α → Prop} {f : α → γ} {P : α → Prop}
  {render : γ → Except Fault String}

theorem isListTail_commaText {ys : List γ}
    (h : ∀ y ∈ ys, ∀ k, ∃ v, E k (written (render y)) v ∧ f v = y ∧ P v) (k : Nat) :
    ∃ vs, IsListTail E k (ys.flatMap fun y => ", ".toList ++ written (render y)) vs ∧
      vs.map f = ys ∧ ∀ v ∈ vs, P v := by
  induction ys generalizing k with
  | nil => exact ⟨[], .nil, rfl, by simp⟩
  | cons y ys ih =>
    obtain ⟨v, hv, hf, hP⟩ := h y List.mem_cons_self (k + (0 + 1 + 1))
    obtain ⟨vs, hvs, hmap, hall⟩ := ih (fun z hz => h z (List.mem_cons_of_mem y hz))
      (k + (0 + 1 + 1) + (written (render y)).length)
    refine ⟨v :: vs, ?_, by rw [List.map_cons, hf, hmap], List.forall_mem_cons.2 ⟨hP, hall⟩⟩
    rw [List.flatMap_cons, List.append_assoc]
    exact .cons 0 1 hv hvs

/-- **What is written of a list** is a spelling of it if this holds of the elements. -/
theorem isList_commaText {x : γ} {xs : List γ}
    (h : ∀ y ∈ x :: xs, ∀ k, ∃ v, E k (written (render y)) v ∧ f v = y ∧ P v) (k : Nat) :
    ∃ vs, IsList E k (commaText render x xs) vs ∧ vs.map f = x :: xs ∧ ∀ v ∈ vs, P v := by
  obtain ⟨v, hv, hf, hP⟩ := h x List.mem_cons_self k
  obtain ⟨vs, hvs, hmap, hall⟩ := isListTail_commaText
    (fun y hy => h y (List.mem_cons_of_mem x hy)) (k + (written (render x)).length)
  exact ⟨v :: vs, .intro hv hvs, by rw [List.map_cons, hf, hmap],
    List.forall_mem_cons.2 ⟨hP, hall⟩⟩

end

end Parser

/-! ## Lists of integers -/

/-- An element of a list of integers is written as one of its spellings. -/
theorem Datum.spelled {name : String} {lo hi : Int} {symbols : Bool} {d : Datum}
    (hlo : IsImmediate lo) (hhi : IsImmediate hi) (h : d.IsElement lo hi symbols)
    (hw : d.Writable) :
    WrittenAs d.render fun text => ∀ k, ∃ numbers,
      Spelling.IsElement name lo hi symbols k text (d, numbers) ∧ offence? numbers = none := by
  have hshow : ∀ v, lo ≤ v ∧ v ≤ hi → Numeral.isShowable v = true := fun v hv =>
    IsImmediate.showable ⟨Int.le_trans hlo.1 hv.1, Int.le_trans hv.2 hhi.2⟩
  cases d with
  | int value =>
    have hv : lo ≤ value ∧ value ≤ hi := h
    refine (Numeral.spelled (hshow value hv)).mono fun _ htext k => ⟨_, .int htext, ?_⟩
    exact offence?_cons_of_fits (by simp [BoundedNumber.fits, hv])
  | repeated value n =>
    obtain ⟨hv, hn⟩ := h
    have hshow' : Numeral.isShowable n = true :=
      Numeral.isShowable_of_bounds (by omega) (by omega)
    have hrender : (Datum.repeated value n).render =
        .ok (Numeral.text value ++ ":" ++ Numeral.text n) := by
      rw [Datum.render, Numeral.write_eq_ok (hshow value hv), Numeral.write_eq_ok hshow']
      rfl
    have htext : (Numeral.text value ++ ":" ++ Numeral.text n).toList =
        (Numeral.text value).toList ++ (gap 0 ++ ':' :: gap 0 ++ (Numeral.text n).toList) := by
      simp [gap]
    refine .intro hrender ?_ fun k => ?_
    · rw [htext]
      refine (inline_text value).append ?_ ?_
      · simp [gap, (inline_text n).no_tab]
      · simp [gap, (inline_text n).no_newline]
    · rw [htext]
      have hfits : ∀ place, (countNumber place n).fits = true := fun place => by
        simp [BoundedNumber.fits, countNumber, hn]
      refine ⟨_, .repeated 0 0 (Numeral.isInteger_text (hshow value hv))
        (Numeral.isInteger_text hshow'), ?_⟩
      rw [offence?_cons_of_fits (by simp [BoundedNumber.fits, hv]), offence?_cons_of_fits (hfits _)]
      rfl
  | symbol s =>
    obtain ⟨hsymbols, hname⟩ := h
    exact (Symbol.spelled hname hw).mono fun _ hs k => ⟨[], .symbol hsymbols hs, rfl⟩
  | float value => exact h.elim
  | text value => exact h.elim

theorem offence?_flatMap {α : Type} {f : α → List BoundedNumber} {xs : List α}
    (h : ∀ x ∈ xs, offence? (f x) = none) : offence? (xs.flatMap f) = none := by
  simp only [offence?, List.find?_eq_none, List.mem_flatMap] at h ⊢
  intro n hn
  obtain ⟨x, hx, hn⟩ := hn
  exact h x hx n hn

/-! ## Directives -/

namespace Parser

variable {tail : List Char}

/-- A directive with data: its name, a space, and what is written of them. -/
theorem directive_readsBack {d : Directive} {form : DirectiveForm} {text : String}
    (hform : Directive.form? d.name = some form) (hrender : d.render = .ok (d.name ++ " " ++ text))
    (hinline : IsInline text.toList)
    (hreads : ∀ tail, Lexeme.AtLineEnd tail →
      directive.Reads (d.name.toList ++ (gap 1 ++ text.toList)) tail (· = d)) :
    directive.ReadsBack d.render Lexeme.AtLineEnd (· = d) := by
  have htext : (d.name ++ " " ++ text).toList = d.name.toList ++ (gap 1 ++ text.toList) := by
    simp [gap]
  have hname := Lexeme.inline_of_isDirectiveName (Lexeme.isDirectiveName_of_form? hform)
  refine .intro hrender ?_ fun tail ht => ?_
  · rw [htext]
    refine hname.append ?_ ?_
    · simp [gap, hinline.no_tab]
    · simp [gap, hinline.no_newline]
  · rw [htext]
    exact hreads tail ht

theorem integers_readsBack {name : String} {lo hi : Int} {symbols : Bool} {args : List Datum}
    (hmem : (name, lo, hi, symbols) ∈ Directive.integerLists) (hne : args ≠ [])
    (hargs : ∀ a ∈ args, a.IsElement lo hi symbols) (hw : ∀ a ∈ args, a.Writable) :
    directive.ReadsBack (Directive.render { name := name, args := args }) Lexeme.AtLineEnd
      (· = { name := name, args := args }) := by
  obtain ⟨x, xs, rfl⟩ := List.exists_cons_of_ne_nil hne
  have htable : ∀ entry ∈ Directive.integerLists, IsImmediate entry.2.1 ∧
      IsImmediate entry.2.2.1 ∧ Directive.isQuoted entry.1 = false := by decide
  obtain ⟨hlo, hhi, hquoted⟩ := htable _ hmem
  obtain ⟨bits, -, hform, -⟩ := Directive.form?_of_integerLists hmem
  have hback : ∀ a ∈ x :: xs, WrittenAs a.render fun text => ∀ k, ∃ numbers,
      Spelling.IsElement name lo hi symbols k text (a, numbers) ∧ offence? numbers = none :=
    fun a ha => Datum.spelled hlo hhi (hargs a ha) (hw a ha)
  have hjoined := toList_commaSeparated_render Datum.render x xs
  have hrender : Directive.render { name := name, args := x :: xs } = .ok (name ++ " " ++
      commaSeparated ((x :: xs).map fun y => String.ofList (written y.render))) := by
    rw [Directive.render, hquoted, mapM_render fun a ha => (hback a ha).ok]
    rfl
  refine directive_readsBack hform hrender ?_ fun tail ht c hc hr => ?_
  · rw [hjoined]
    exact commaText_inline hback
  · -- what is written is a spelling of the list, and every number in it fits
    obtain ⟨elements, hlist, hmap, hfits⟩ := isList_commaText
      (f := fun e : Datum × List BoundedNumber => e.1) (P := fun e => offence? e.2 = none)
      (fun a ha k => by
        obtain ⟨numbers, h, hnone⟩ := (hback a ha).spelled k
        exact ⟨(a, numbers), h, rfl, hnone⟩)
      (name.toList.length + 1)
    have hspelled := IsIntegerList.intro hmem Nat.one_pos hlist (.spaces 0)
    rw [hmap] at hspelled
    rw [hjoined] at hr ⊢
    have hm := directive_spelled hspelled ht hc (by rw [hr]; simp [gap])
    rw [verdict, offence?_flatMap hfits] at hm
    refine ⟨_, rfl, hm.trans ?_⟩
    simp [gap]
    rfl

/-- A directive is read back if its data are. -/
theorem directive_reads {name : String} {form : DirectiveForm} {args : List Datum}
    {text : List Char} (hform : Directive.form? name = some form)
    (hstop : Lexeme.startsWord (text ++ tail) = false)
    (hargs : (directiveArgs name form).Reads text tail (· = args)) (ht : Lexeme.AtLineEnd tail) :
    directive.Reads (name.toList ++ text) tail (· = { name := name, args := args }) := by
  have hname := Lexeme.isDirectiveName_of_form? hform
  refine .bind (word_reads _ (Lexeme.directiveName?_name hname hstop)) fun found hfound => ?_
  rw [String.ofList_toList] at hfound
  subst hfound
  refine .bind_nil (.ofOption hform _) fun found hfound => ?_
  subst hfound
  refine .bind_pure hargs fun found hfound => ?_
  subst hfound
  exact .bind_nil (statementEnd_reads (.spaces 0) ht) fun _ _ => .pure _ tail

/-- The data of a directive that takes a single datum, from the space before it on. -/
theorem datum_reads {α : Type} {p : Parser α} {make : α → Datum} {text : List Char} {v : α}
    (hinline : IsInline text) (h : p.Reads text tail (· = v)) :
    (do let x ← preceded spaces1 p; return [make x] : Parser (List Datum)).Reads (gap 1 ++ text)
      tail (· = [make v]) := by
  obtain ⟨c, rest, hc, hnot⟩ := hinline.head
  have hspaces : spaces1.Reads (gap 1) (text ++ tail) fun _ => True := by
    refine spaces1_reads Nat.one_pos fun x hx he => hnot ?_
    rw [hc] at hx
    cases hx
    simp [he]
  refine .bind_pure (.preceded hspaces h) fun x hx => ?_
  subst hx
  exact .pure _ tail

theorem count_reads {what : String} {n : Int} (hlo : 0 ≤ n) (hhi : n ≤ 2147483647)
    (ht : Lexeme.startsWord tail = false) :
    (count what).Reads (Numeral.text n).toList tail (· = n) := by
  have hshow : Numeral.isShowable n = true :=
    Numeral.isShowable_of_bounds (by omega) (by omega)
  refine .bind_pure (placedInteger_reads (Numeral.isInteger_text hshow) ht) ?_
  rintro ⟨start, v⟩ rfl
  have hcount : 0 ≤ v ∧ v ≤ Directive.maxCount := ⟨hlo, hhi⟩
  simp only [hcount, and_self, if_true]
  exact .pure _ tail

theorem string_readsBack {name : String} (hform : Directive.form? name = some .string)
    (hquoted : Directive.isQuoted name = true) (text : String) :
    directive.ReadsBack (Directive.render { name := name, args := [.text text] })
      Lexeme.AtLineEnd (· = { name := name, args := [.text text] }) := by
  have hinline := inline_quotedLiteral (.inl rfl) text
  refine directive_readsBack hform ?_ hinline fun tail ht => directive_reads hform rfl ?_ ht
  · rw [Directive.render, hquoted]
    rfl
  · exact datum_reads hinline (string_reads text tail)

theorem count_readsBack {name : String} {n : Int} (hform : Directive.form? name = some .count)
    (hquoted : Directive.isQuoted name = false) (hlo : 0 ≤ n) (hhi : n ≤ 2147483647) :
    directive.ReadsBack (Directive.render { name := name, args := [.int n] }) Lexeme.AtLineEnd
      (· = { name := name, args := [.int n] }) := by
  have hshow : Numeral.isShowable n = true :=
    Numeral.isShowable_of_bounds (by omega) (by omega)
  have hinline := inline_text n
  refine directive_readsBack hform ?_ hinline fun tail ht => directive_reads hform rfl ?_ ht
  · have hmap : [Datum.int n].mapM Datum.render = .ok [Numeral.text n] := by
      simp [Datum.render, Numeral.write_eq_ok hshow, bind, Except.bind, pure, Except.pure]
    rw [Directive.render, hquoted, hmap]
    simp [Except.map, Directive.plainText, commaSeparated]
  · exact datum_reads hinline (count_reads hlo hhi ht.ends.startsWord)

theorem globl_readsBack {symbol : String} (h : IsName symbol) :
    directive.ReadsBack (Directive.render { name := ".globl", args := [.text symbol] })
      Lexeme.AtLineEnd (· = { name := ".globl", args := [.text symbol] }) := by
  have hform : Directive.form? ".globl" = some .name := rfl
  refine directive_readsBack hform ?_ h.inline fun tail ht => directive_reads hform rfl ?_ ht
  · simp [Directive.render, Directive.isQuoted, Datum.render, Except.map, Directive.plainText,
      commaSeparated, bind, Except.bind, pure, Except.pure]
  · exact datum_reads h.inline (identifier_reads h ht.ends.startsWord)

theorem plain_readsBack {name : String} (hform : Directive.form? name = some .plain)
    (hquoted : Directive.isQuoted name = false) :
    directive.ReadsBack (Directive.render { name := name }) Lexeme.AtLineEnd
      (· = { name := name }) := by
  have hrender : Directive.render { name := name } = .ok name := by
    rw [Directive.render, hquoted]
    rfl
  refine .intro hrender ?_ fun tail ht => ?_
  · exact Lexeme.inline_of_isDirectiveName (Lexeme.isDirectiveName_of_form? hform)
  · rw [← List.append_nil name.toList]
    exact directive_reads hform ht.ends.startsWord (.pure [] tail) ht

/-- **Every directive is read back.** -/
theorem directive_readsBack_of_wellFormed {d : Directive} (h : d.WellFormed)
    (hw : ∀ a ∈ d.args, a.Writable) :
    directive.ReadsBack d.render Lexeme.AtLineEnd (· = d) := by
  cases h with
  | @plain name hmem =>
    have hall : ∀ name ∈ [".text", ".data", ".ktext", ".kdata"],
        Directive.form? name = some .plain ∧ Directive.isQuoted name = false := by decide
    exact plain_readsBack (hall name hmem).1 (hall name hmem).2
  | @string name text hmem =>
    have hall : ∀ name ∈ [".ascii", ".asciiz"],
        Directive.form? name = some .string ∧ Directive.isQuoted name = true := by decide
    exact string_readsBack (hall name hmem).1 (hall name hmem).2 text
  | integers hmem hne hargs => exact integers_readsBack hmem hne hargs hw
  | floats values hmem hne =>
    obtain ⟨v, vs, rfl⟩ := List.exists_cons_of_ne_nil hne
    exact (hw (.float v) (by simp)).elim
  | @count name n hmem hlo hhi =>
    have hall : ∀ name ∈ [".align", ".space"],
        Directive.form? name = some .count ∧ Directive.isQuoted name = false := by decide
    exact count_readsBack (hall name hmem).1 (hall name hmem).2 hlo hhi
  | globl hname => exact globl_readsBack hname

end Parser

/-! ## Items -/

namespace Lexeme

variable {name tail : List Char}

theorem label?_name (h : IsIdentifier name) (tail : List Char) :
    label? (name ++ ':' :: tail) = some (name, name.length + 1) := by
  have hid : identifier? (name ++ ':' :: tail) = some name := identifier?_name h rfl
  simp [label?, hid, spaces]

/-- No label without a colon after the spaces that follow the name. -/
theorem label?_of_no_colon (h : IsIdentifier name) (ht : startsWord tail = false)
    (hcolon : ':' ∉ (tail.drop (spaces tail).length).head?) : label? (name ++ tail) = none := by
  rw [label?, identifier?_name h ht]
  have hdrop : (name ++ tail).drop (name.length + (spaces tail).length) =
      tail.drop (spaces tail).length := by
    rw [← List.drop_drop, List.drop_left]
  simp only [List.drop_left, hdrop]
  split
  · rename_i rest heq
    rw [heq] at hcolon
    exact absurd rfl hcolon
  · rfl

theorem directiveName?_head {c : Char} (h : c ≠ '.') (l : List Char) :
    directiveName? (c :: l) = none := by
  rw [directiveName?.eq_def]
  split
  · rename_i heq
    cases heq
    exact absurd rfl h
  · rfl

end Lexeme

namespace Parser

variable {tail : List Char}

theorem label_reads {name : String} (h : IsName name) (tail : List Char) :
    label.Reads (name.toList ++ [':']) tail (· = name) := by
  refine .scan ?_
  rw [List.append_assoc, List.singleton_append, Lexeme.label?_name h]
  simp

theorem label_refuses {text : List Char} (h : Lexeme.label? text = none) : label.Refuses text :=
  Refuses.scan (by rw [h]; rfl)

theorem directive_refuses {c : Char} (h : c ≠ '.') (l : List Char) : directive.Refuses (c :: l) :=
  .bind (word_refuses (Lexeme.directiveName?_head h l))

/-- A directive starts with a point. -/
theorem directive_head {c after : Cursor} {d : Directive} (h : directive c = .matched d after) :
    ∃ rest, c.rest = '.' :: rest := by
  obtain ⟨name, mid, hname, -⟩ := bind_eq_matched.1 h
  cases hr : c.rest with
  | nil =>
    rw [word, scan, hr] at hname
    cases hname
  | cons x rest =>
    by_cases hx : x = '.'
    · exact ⟨rest, by rw [hx]⟩
    · rw [word, scan, hr, Lexeme.directiveName?_head hx] at hname
      cases hname

/-- An instruction starts with a letter or an underscore. -/
theorem instruction_head {c after : Cursor} {i : Instruction}
    (h : instruction c = .matched i after) :
    ∃ x rest, c.rest = x :: rest ∧ Lexeme.isWordStart x = true := by
  obtain ⟨start, mid, hplace, h⟩ := bind_eq_matched.1 h
  cases hplace
  obtain ⟨name, mid, hname, -⟩ := bind_eq_matched.1 h
  cases hr : c.rest with
  | nil =>
    rw [identifier, word, scan, hr] at hname
    cases hname
  | cons x rest =>
    cases hx : Lexeme.isWordStart x with
    | true => exact ⟨x, rest, rfl, hx⟩
    | false =>
      rw [identifier, word, scan, hr, Lexeme.identifier?_head hx] at hname
      cases hname

end Parser

/-- An instruction starts no label: no colon stands after its mnemonic. -/
theorem Spelling.IsInstruction.label? {text tail : List Char} {mnemonic : String}
    {placeds : List (Operand × Nat)} (h : IsInstruction text mnemonic placeds)
    (ht : Lexeme.AtLineEnd tail) : Lexeme.label? (text ++ tail) = none := by
  have hcut : ∀ {n : Nat} {rest : List Char}, (∀ x ∈ rest.head?, x ≠ ' ' ∧ x ≠ ':') →
      ':' ∉ ((gap n ++ rest).drop (Lexeme.spaces (gap n ++ rest)).length).head? := by
    intro n rest hrest hcolon
    rw [Lexeme.spaces_gap fun x hx => (hrest x hx).1, Lexeme.length_gap, Lexeme.drop_gap] at hcolon
    exact (hrest ':' hcolon).2 rfl
  cases h with
  | bare hname he =>
    have hword := (he.trails ht).startsWord
    obtain ⟨n, rest, heq, hrest⟩ := he.split ht
    rw [List.append_assoc]
    refine Lexeme.label?_of_no_colon hname hword ?_
    rw [heq]
    have hall : ∀ x ∈ [';', '\n'], x ≠ ' ' ∧ x ≠ ':' := Lexeme.forall_mem_of_all (by decide)
    exact hcut fun x hx => hall x (hrest x hx)
  | @operands _ list ending _ n hname hn hlist he =>
    obtain ⟨m, rfl⟩ : ∃ m, n = m + 1 := ⟨n - 1, by omega⟩
    rw [List.append_assoc]
    refine Lexeme.label?_of_no_colon hname rfl ?_
    obtain ⟨hv, -⟩ := hlist
    obtain ⟨x, rest, rfl, hx⟩ := hv.1.head
    rw [List.append_assoc]
    exact hcut fun y hy => by
      cases hy
      exact hx

/-- An instruction is written as one of its spellings. -/
theorem Instruction.spelled {i : Instruction} (h : (Item.instruction i).WellFormed)
    (hw : (Item.instruction i).Writable) :
    WrittenAs i.render fun text => ∃ placeds,
      IsInstruction text i.mnemonic placeds ∧ placeds.map (·.1) = i.operands.map (·.1) := by
  obtain ⟨hname, hoperands⟩ := h
  have hback : ∀ o ∈ i.operands.map (·.1), WrittenAs o.render (IsOperand · o) := by
    intro o ho
    obtain ⟨placed, hp, rfl⟩ := List.mem_map.1 ho
    exact Operand.spelled (hoperands placed hp) (hw placed hp)
  have hmap : (i.operands.mapM fun entry => Operand.render entry.1) =
      .ok ((i.operands.map (·.1)).map fun o => String.ofList (written o.render)) := by
    rw [← Parser.mapM_render fun o ho => (hback o ho).ok, List.mapM_map]
    rfl
  have hrender : i.render = .ok (Instruction.plainText i.mnemonic
      ((i.operands.map (·.1)).map fun o => String.ofList (written o.render))) := by
    rw [Instruction.render, hmap]
    rfl
  cases hops : i.operands.map (·.1) with
  | nil =>
    rw [hops] at hrender
    have hbare := IsInstruction.bare hname (.spaces 0)
    rw [show gap 0 = [] from rfl, List.append_nil] at hbare
    exact .intro hrender hname.inline ⟨[], hbare, rfl⟩
  | cons x xs =>
    rw [hops] at hrender hback
    have hinline := Parser.commaText_inline hback
    have hjoined := Parser.toList_commaSeparated_render Operand.render x xs
    have hne : commaSeparated ((x :: xs).map fun o => String.ofList (written o.render)) ≠ "" := by
      intro hempty
      rw [hempty] at hjoined
      exact hinline.ne_nil hjoined.symm
    rw [Instruction.plainText, if_neg hne] at hrender
    have htext : (i.mnemonic ++ " " ++ commaSeparated ((x :: xs).map fun o =>
        String.ofList (written o.render))).toList =
          i.mnemonic.toList ++ (gap 1 ++ (Parser.commaText Operand.render x xs ++ gap 0)) := by
      rw [String.toList_append, String.toList_append, hjoined]
      simp [gap]
    refine .intro hrender ?_ ?_
    · rw [htext]
      refine hname.inline.append ?_ ?_
      · simp [gap, hinline.no_tab]
      · simp [gap, hinline.no_newline]
    · rw [htext]
      obtain ⟨placeds, hlist, hplaceds, -⟩ := Parser.isList_commaText
        (E := IsPlacedOperand) (f := (·.1)) (P := fun _ => True)
        (fun o ho k => ⟨(o, k), ⟨(hback o ho).spelled, rfl⟩, rfl, trivial⟩)
        (i.mnemonic.toList.length + 1)
      exact ⟨placeds, .operands hname Nat.one_pos hlist (.spaces 0), hplaceds⟩

/-- **Every item is read back**, but for its columns. -/
theorem Parser.item_readsBack {i : Item} (h : i.WellFormed) (hw : i.Writable) :
    item.ReadsBack i.render Lexeme.AtLineEnd fun j => j.eraseColumns = i.eraseColumns := by
  cases i with
  | label name =>
    have htext : (name ++ ":").toList = name.toList ++ [':'] := by simp
    refine .intro rfl ?_ fun tail ht => ?_
    · rw [htext]
      exact (IsName.inline h).append (by decide) (by decide)
    · rw [htext]
      exact .orElse_left ((label_reads h tail).map fun v hv => by rw [hv])
  | directive d =>
    have hback := directive_readsBack_of_wellFormed h hw
    refine ⟨hback.ok, hback.inline, fun tail ht => .orElse_right ?_ (.orElse_left ?_)⟩
    · intro c hc hr
      obtain ⟨v, -, hm⟩ := hback.reads tail ht c hc hr
      obtain ⟨rest, hrest⟩ := directive_head hm
      have hlabel : Lexeme.label? ('.' :: rest) = none := by
        rw [Lexeme.label?, Lexeme.identifier?_head (by decide)]
      exact (label_refuses hlabel).map c hc hrest
    · exact (hback.reads tail ht).map fun v hv => by rw [hv]
  | instruction ins =>
    have hback := Instruction.spelled h hw
    obtain ⟨placeds, hspelled, hplaceds⟩ := hback.spelled
    refine ⟨hback.ok, hback.inline, fun tail ht => ?_⟩
    have hreads : instruction.Reads (written ins.render) tail fun v =>
        v.mnemonic = ins.mnemonic ∧ v.operands.map (·.1) = ins.operands.map (·.1) := by
      intro c hc hr
      refine ⟨_, ?_, instruction_spelled hspelled ht hc hr⟩
      refine ⟨rfl, ?_⟩
      rw [List.map_map, ← hplaceds]
      rfl
    refine .orElse_right ?_ (.orElse_right ?_ (.orElse_left ?_))
    · exact (label_refuses (hspelled.label? ht)).map
    · intro c hc hr
      obtain ⟨v, -, hm⟩ := hreads c hc hr
      obtain ⟨x, rest, hrest, hstart⟩ := instruction_head hm
      have hpoint : x ≠ '.' := Lexeme.ne_of_test hstart (by decide)
      exact (directive_refuses hpoint rest).map c hc hrest
    · refine hreads.map fun v hv => ?_
      obtain ⟨hmnemonic, hoperands⟩ := hv
      have herase : (v.operands.map fun placed => (placed.1, (0 : Int))) =
          ins.operands.map fun placed => (placed.1, 0) := by
        have := congrArg (List.map fun o => (o, (0 : Int))) hoperands
        rwa [List.map_map, List.map_map] at this
      simp only [Item.eraseColumns, hmnemonic, herase]

end MipsSource
