import MipsSource.Proofs.Progress
import MipsSource.Proofs.SpelledOperands

/-!
# Lists with commas and lines of instructions

The elements of a list stand between commas, with any spaces around these, and a statement ends with
spaces and a semicolon that may be missing. `Spelling.IsList E k text values` says so of a list that
stands `k` characters into its line, where `E` relates the place, the text and the value of an
element. Reading such a list goes element by element, and stops at the first that fails:

* `Parser.sepBy1_spelled`: what a list is read as, from what one element is read as.
* `Parser.instruction_spelled`: every spelling of an instruction is read as that instruction.
-/

set_option autoImplicit false

namespace MipsSource

open Lexeme (gap)
open Spelling

namespace Spelling

variable {α : Type}

/-- The elements of a list after the first, each after a comma. -/
inductive IsListTail (E : Nat → List Char → α → Prop) : Nat → List Char → List α → Prop
  | nil {k : Nat} : IsListTail E k [] []
  | cons {k : Nat} {text rest : List Char} {v : α} {vs : List α} (a b : Nat) :
      E (k + (a + 1 + b)) text v → IsListTail E (k + (a + 1 + b) + text.length) rest vs →
      IsListTail E k (gap a ++ ',' :: gap b ++ (text ++ rest)) (v :: vs)

/-- One or more elements with commas between them. -/
inductive IsList (E : Nat → List Char → α → Prop) (k : Nat) : List Char → List α → Prop
  | intro {text rest : List Char} {v : α} {vs : List α} :
      E k text v → IsListTail E (k + text.length) rest vs → IsList E k (text ++ rest) (v :: vs)

/-- The end of a statement. -/
inductive IsEnding : List Char → Prop
  | spaces (n : Nat) : IsEnding (gap n)
  | semicolon (n : Nat) : IsEnding (gap n ++ [';'])

/-- An operand in its place. -/
def IsPlacedOperand (k : Nat) (text : List Char) (placed : Operand × Nat) : Prop :=
  IsOperand text placed.1 ∧ placed.2 = k

/-- **The spellings of an instruction**: the mnemonic, its operands with their places in the line,
and the end of the statement. -/
inductive IsInstruction : List Char → String → List (Operand × Nat) → Prop
  | bare {mnemonic : String} {ending : List Char} :
      IsName mnemonic → IsEnding ending → IsInstruction (mnemonic.toList ++ ending) mnemonic []
  | operands {mnemonic : String} {list ending : List Char} {placeds : List (Operand × Nat)}
      {n : Nat} :
      IsName mnemonic → 0 < n →
      IsList IsPlacedOperand (mnemonic.toList.length + n) list placeds → IsEnding ending →
      IsInstruction (mnemonic.toList ++ (gap n ++ (list ++ ending))) mnemonic placeds

end Spelling

/-! ## What follows an element -/

theorem Spelling.IsListTail.trails {α : Type} {E : Nat → List Char → α → Prop} {k : Nat}
    {text ending tail : List Char} {vs : List α} (h : IsListTail E k text vs)
    (he : Trails (ending ++ tail)) : Trails (text ++ (ending ++ tail)) := by
  cases h with
  | nil => exact he
  | @cons _ text rest v vs a b _ _ =>
    refine ⟨a, ',' :: (gap b ++ (text ++ rest ++ (ending ++ tail))), by simp, fun c hc => ?_⟩
    cases hc
    simp

/-- After a statement there are spaces, and then a semicolon or the end of the line. -/
theorem Spelling.IsEnding.split {ending tail : List Char} (h : IsEnding ending)
    (ht : Lexeme.AtLineEnd tail) :
    ∃ n rest, ending ++ tail = gap n ++ rest ∧ ∀ x ∈ rest.head?, x ∈ [';', '\n'] := by
  cases h with
  | spaces n => exact ⟨n, tail, rfl, fun x hx => by rw [ht x hx]; simp⟩
  | semicolon n => exact ⟨n, ';' :: tail, by simp, fun x hx => by cases hx; simp⟩

theorem Spelling.IsEnding.trails {ending tail : List Char} (h : IsEnding ending)
    (ht : Lexeme.AtLineEnd tail) : Trails (ending ++ tail) := by
  obtain ⟨n, rest, heq, hrest⟩ := h.split ht
  exact ⟨n, rest, heq, fun x hx => List.mem_cons_of_mem _ (hrest x hx)⟩

theorem drop_of_append {text front back : List Char} {k : Nat} (h : text.drop k = front ++ back) :
    text.drop (k + front.length) = back := by
  rw [← List.drop_drop, h, List.drop_left]

theorem length_of_drop {text front back : List Char} {k : Nat} (h : text.drop k = front ++ back)
    (hf : front ≠ []) : k + front.length + back.length = text.length := by
  have hlen := congrArg List.length h
  have hpos := List.length_pos_iff.2 hf
  rw [List.length_drop, List.length_append] at hlen
  omega

theorem length_separator (mark : Char) (a b : Nat) :
    (gap a ++ mark :: gap b).length = a + 1 + b := by
  rw [List.length_append, Lexeme.length_gap, List.length_cons, Lexeme.length_gap]
  omega

/-- A piece without a newline, further along the line. -/
theorem InLine.append {text front back : List Char} {k : Nat} (h : InLine text k)
    (hr : text.drop k = front ++ back) (hf : '\n' ∉ front) : InLine text (k + front.length) := by
  refine inLine_additive.add _ _ _ h ?_
  rw [hr, InLine, List.take_left]
  exact hf

theorem not_mem_gap {n : Nat} : '\n' ∉ gap n := fun h =>
  absurd (List.eq_of_mem_replicate h) (by decide)

namespace Parser

variable {α β : Type} {tail : List Char}

/-- What a parser reads from one line holds no newline. -/
theorem Reads.no_newline {p : Parser α} (hp : p.Ensures fun c _ n => InLine c.rest n)
    {text : List Char} {V : α → Prop} (h : p.Reads text [] V) : '\n' ∉ text := by
  obtain ⟨v, -, hm⟩ := h (.start text) rfl (List.append_nil text).symm
  obtain ⟨n, hn, heq, hline⟩ := hp _ _ _ hm
  have hlen := congrArg (·.rest.length) heq
  simp only [Cursor.advance_rest, List.length_drop] at hlen
  have hall : text.length ≤ n := by
    simp only [Cursor.start] at hlen hn
    omega
  rwa [InLine, Cursor.start, List.take_of_length_le hall] at hline

theorem spaces1_reads {n : Nat} (hn : 0 < n) (ht : ∀ c ∈ tail.head?, c ≠ ' ') :
    spaces1.Reads (gap n) tail fun _ => True := by
  have hne : gap n ≠ [] := by
    rw [← List.length_pos_iff, Lexeme.length_gap]
    exact hn
  refine (word_reads (gap n) ?_).mono fun _ _ => trivial
  rw [Lexeme.spaces_gap ht, if_neg hne]

/-- A separator with the spaces around it. -/
theorem separator_reads {word : String} {mark : Char} (hword : word.toList = [mark])
    (hm : mark ≠ ' ') (a b : Nat) (ht : ∀ c ∈ tail.head?, c ≠ ' ') :
    (sequence [spaces, tag word, spaces]).Reads (gap a ++ mark :: gap b) tail fun _ => True := by
  have hlast : (sequence [spaces]).Reads (gap b) tail fun _ => True :=
    .bind_pure (spaces_reads ht) fun _ _ => .bind_pure (.pure [] _) fun _ _ =>
      (Reads.pure _ tail).mono fun _ _ => trivial
  have hmark : (sequence [tag word, spaces]).Reads (mark :: gap b) tail fun _ => True := by
    have htag := Reads.tag word (gap b ++ tail)
    rw [hword] at htag
    exact .bind htag fun _ _ => .bind_pure hlast fun _ _ =>
      (Reads.pure _ tail).mono fun _ _ => trivial
  refine .bind (spaces_reads fun c hc => ?_) fun _ _ => ?_
  · cases hc
    exact hm
  · exact .bind_pure hmark fun _ _ => (Reads.pure _ tail).mono fun _ _ => trivial

theorem comma_reads (a b : Nat) (ht : ∀ c ∈ tail.head?, c ≠ ' ') :
    comma.Reads (gap a ++ ',' :: gap b) tail fun _ => True :=
  separator_reads (show ",".toList = [','] from rfl) (by decide) a b ht

theorem separator_refuses {word : String} {n : Nat} {rest : List Char}
    (hs : ∀ c ∈ rest.head?, c ≠ ' ') (hword : ¬ word.toList <+: rest) :
    (sequence [spaces, tag word, spaces]).Refuses (gap n ++ rest) :=
  .bind_right (spaces_reads hs) fun _ _ => .bind (.bind (.tag hword))

theorem comma_refuses_ending {ending : List Char} (h : IsEnding ending)
    (ht : Lexeme.AtLineEnd tail) : comma.Refuses (ending ++ tail) := by
  obtain ⟨n, rest, heq, hrest⟩ := h.split ht
  rw [heq]
  refine separator_refuses (fun x hx he => ?_) fun hp => ?_
  · exact absurd (he ▸ hrest x hx) (by decide)
  · obtain ⟨more, rfl⟩ := hp
    exact absurd (hrest ',' rfl) (by decide)

theorem statementEnd_reads {ending : List Char} (h : IsEnding ending)
    (ht : Lexeme.AtLineEnd tail) : statementEnd.Reads ending tail fun _ => True := by
  cases h with
  | spaces n =>
    have hnone : (optional (tag ";")).Reads [] tail (· = none) := by
      refine .optional_none (.tag fun hp => ?_)
      obtain ⟨rest, rfl⟩ := hp
      exact absurd (ht ';' rfl) (by decide)
    refine .bind_pure (spaces_reads fun c hc => by rw [ht c hc]; decide) fun _ _ => ?_
    exact .bind_nil hnone fun _ _ => (Reads.pure () tail).mono fun _ _ => trivial
  | semicolon n =>
    refine .bind (spaces_reads fun c hc => by cases hc; decide) fun _ _ => ?_
    exact .bind_pure (.optional_some (.tag ";" tail)) fun _ _ =>
      (Reads.pure () tail).mono fun _ _ => trivial

/-! ## Lists -/

section
variable {item : Parser β} {E : Nat → List Char → α → Prop} {result : α → Except Fault β}
  {c : Cursor} (hc : c.past = 0) (hi : item.Forward)
  (hhead : ∀ k text v, E k text v → ∃ x rest, text = x :: rest ∧ x ≠ ' ')
  (hline : ∀ k text v, E k text v → '\n' ∉ text)
  (hitem : ∀ k text v u, E k text v → Trails u → InLine c.rest k → c.rest.drop k = text ++ u →
    item (c.advance k) = ofExcept (result v) (c.advance (k + text.length)))
include hc hi hhead hline hitem

omit hi hline in
/-- An element after the first, with the comma before it. -/
theorem commaItem_spelled {k a b : Nat} {text u : List Char} {v : α}
    (hv : E (k + (a + 1 + b)) text v) (hu : Trails u) (hk : InLine c.rest k)
    (hr : c.rest.drop k = (gap a ++ ',' :: gap b) ++ (text ++ u)) :
    preceded comma item (c.advance k) =
      ofExcept (result v) (c.advance (k + (a + 1 + b) + text.length)) := by
  obtain ⟨x, more, hx, hspace⟩ := hhead _ _ _ hv
  have hstart : ∀ d ∈ (text ++ u).head?, d ≠ ' ' := by simp [hx, hspace]
  obtain ⟨_, -, hcomma⟩ := comma_reads a b hstart (c.advance k) (Cursor.advance_past hc k)
    (by rw [Cursor.advance_rest, hr])
  have hk' := hk.append hr (by simp [not_mem_gap])
  have hr' := drop_of_append hr
  rw [length_separator] at hcomma hk' hr'
  rw [preceded, bind_matched hcomma, Cursor.advance_advance, hitem _ _ _ _ hv hu hk' hr']

/-- The elements after the first, round by round. -/
theorem collect_spelled {k : Nat} {text ending : List Char} {vs : List α}
    (h : IsListTail E k text vs) (he : IsEnding ending) (ht : Lexeme.AtLineEnd tail)
    (hk : InLine c.rest k) (hr : c.rest.drop k = text ++ (ending ++ tail)) :
    collect (preceded comma item) (c.advance k) =
      (vs.mapM result).map fun values => (values, c.advance (k + text.length)) := by
  have hforward : (preceded comma item).Forward :=
    .preceded comma_forward hi fun _ _ _ _ _ _ _ => trivial
  induction h with
  | @nil k =>
    have hcomma : comma (c.advance k) = .unmatched :=
      comma_refuses_ending he ht _ (Cursor.advance_past hc k)
        (by rw [Cursor.advance_rest]; exact hr)
    rw [collect_unmatched hforward (bind_unmatched hcomma)]
    rfl
  | @cons k text rest v vs a b hv hrest ih =>
    replace hr : c.rest.drop k =
        (gap a ++ ',' :: gap b) ++ (text ++ (rest ++ (ending ++ tail))) := by
      rw [hr]
      simp
    have hround := commaItem_spelled hc hhead hitem hv (hrest.trails (he.trails ht)) hk hr
    have hk' := hk.append hr (by simp [not_mem_gap])
    have hr' := drop_of_append hr
    rw [length_separator] at hk' hr'
    cases hv' : result v with
    | error fault =>
      rw [hv'] at hround
      rw [collect_eq hforward, hround, List.mapM_cons, hv']
      rfl
    | ok value =>
      rw [hv'] at hround
      have hnext := ih (hk'.append hr' (hline _ _ _ hv)) (drop_of_append hr')
      have hlen : a + 1 + b + text.length ≤ (c.advance k).rest.length := by
        rw [Cursor.advance_rest, hr, List.length_append, length_separator, List.length_append]
        omega
      have hadvance : c.advance (k + (a + 1 + b) + text.length) =
          (c.advance k).advance (a + 1 + b + text.length) := by
        rw [Cursor.advance_advance, Nat.add_assoc]
      have hall : k + (gap a ++ ',' :: gap b ++ (text ++ rest)).length =
          k + (a + 1 + b) + text.length + rest.length := by
        rw [List.length_append, length_separator, List.length_append]
        omega
      rw [hadvance] at hround hnext
      rw [collect_matched hforward (Cursor.advance_past hc k) hround (by omega) hlen, hnext, hall,
        List.mapM_cons, hv']
      cases vs.mapM result <;> rfl

/-- **A list with commas** is read element by element, up to the first that fails. -/
theorem sepBy1_spelled {k : Nat} {text ending : List Char} {vs : List α} (h : IsList E k text vs)
    (he : IsEnding ending) (ht : Lexeme.AtLineEnd tail) (hk : InLine c.rest k)
    (hr : c.rest.drop k = text ++ (ending ++ tail)) :
    sepBy1 comma item (c.advance k) =
      ofExcept (vs.mapM result) (c.advance (k + text.length)) := by
  obtain ⟨hv, hrest⟩ := h
  rename_i text rest v vs
  rw [List.append_assoc] at hr
  have hfirst := hitem _ _ _ _ hv (hrest.trails (he.trails ht)) hk hr
  have hothers := collect_spelled hc hi hhead hline hitem hrest he ht
    (hk.append hr (hline _ _ _ hv)) (drop_of_append hr)
  rw [List.mapM_cons]
  cases hv' : result v with
  | error fault =>
    rw [hv'] at hfirst
    exact bind_failed hfirst
  | ok value =>
    rw [hv'] at hfirst
    rw [sepBy1, bind_matched hfirst, bind_apply, many, hothers, List.length_append, ← Nat.add_assoc]
    cases vs.mapM result <;> rfl

/-- A list from the spaces before it on. -/
theorem spacedList_spelled {k n : Nat} {text ending : List Char} {vs : List α} (hn : 0 < n)
    (h : IsList E (k + n) text vs) (he : IsEnding ending) (ht : Lexeme.AtLineEnd tail)
    (hk : InLine c.rest k) (hr : c.rest.drop k = gap n ++ (text ++ (ending ++ tail))) :
    preceded spaces1 (sepBy1 comma item) (c.advance k) =
      ofExcept (vs.mapM result) (c.advance (k + (n + text.length))) := by
  have hstart : ∀ d ∈ (text ++ (ending ++ tail)).head?, d ≠ ' ' := by
    obtain ⟨hv, -⟩ := h
    obtain ⟨x, rest, rfl, hx⟩ := hhead _ _ _ hv
    simp [hx]
  obtain ⟨_, -, hspaces⟩ := spaces1_reads hn hstart (c.advance k) (Cursor.advance_past hc k)
    (by rw [Cursor.advance_rest, hr])
  have hk' := hk.append hr not_mem_gap
  have hr' := drop_of_append hr
  rw [Lexeme.length_gap] at hspaces hk' hr'
  rw [preceded, bind_matched hspaces, Cursor.advance_advance,
    sepBy1_spelled hc hi hhead hline hitem h he ht hk' hr', Nat.add_assoc]

end

/-! ## Instructions -/

theorem operand_inLine : operand.Ensures fun c _ n => InLine c.rest n :=
  (operand_composed inLine_holdsOfLexemes).ensures inLine_additive

/-- Where no scanner finds anything, no operand starts. -/
theorem operand_refuses_of_scanners {text : List Char} (hopen : ¬ ['('] <+: text)
    (hinteger : Lexeme.integer? text = none) (hname : Lexeme.identifier? text = none)
    (hregister : Lexeme.registerName? text = none) (hdecimal : Lexeme.decimal? text = none)
    (hcharacter : Lexeme.character? text = none) : operand.Refuses text := by
  have himmediate : immediate.Refuses text :=
    .bind (.bind_nil (.position _) fun _ _ => .bind (.bind (.scan (by rw [hinteger]; rfl))))
  have hsymbol : symbol.Refuses text := .bind (word_refuses hname)
  have hdisplacement : displacement.Refuses text :=
    .orElse himmediate.map (.orElse hsymbol.map (.noMatch _))
  refine .orElse ?_ (.orElse ?_ (.orElse ?_ (.orElse himmediate.map (.orElse ?_
    (.orElse hsymbol.map (.noMatch _))))))
  · exact .bind_nil (.optional_none hdisplacement) fun _ _ => .bind (.tag hopen)
  · exact .map (.bind_nil (.position _) fun _ _ => .bind (.scan (by rw [hregister]; rfl)))
  · exact .map (.map (.scan hdecimal))
  · exact .map (.bind (.scan (by rw [hcharacter]; rfl)))

theorem operand_refuses {text : List Char} (h : ∀ x ∈ text.head?, x ∈ [' ', ':', ';', '\n']) :
    operand.Refuses text := by
  cases text with
  | nil => exact operand_refuses_of_scanners (by simp) rfl rfl rfl rfl rfl
  | cons x rest =>
    have hall : ∀ x ∈ [' ', ':', ';', '\n'], Numeral.isSign x = false ∧ x.isDigit = false ∧
        Lexeme.isWordStart x = false ∧ x ≠ '(' ∧ x ≠ '$' ∧ x ≠ '\'' :=
      Lexeme.forall_mem_of_all (by decide)
    obtain ⟨hs, hd, hw, hopen, hdollar, hquote⟩ := hall x (h x rfl)
    exact operand_refuses_of_scanners (by simp [hopen.symm]) (Lexeme.integer?_head hs hd rest)
      (Lexeme.identifier?_head hw rest) (Lexeme.registerName?_head hdollar rest)
      (Lexeme.decimal?_head hs hd rest) (Lexeme.character?_head hquote rest)

end Parser

theorem Spelling.IsOperand.no_newline {text : List Char} {o : Operand} (h : IsOperand text o) :
    '\n' ∉ text :=
  (Parser.operand_reads h trails_nil).no_newline Parser.operand_inLine

theorem Spelling.IsOperand.head {text : List Char} {o : Operand} (h : IsOperand text o) :
    ∃ x rest, text = x :: rest ∧ x ≠ ' ' ∧ x ≠ ':' := by
  have hread := Parser.operand_reads h trails_nil
  have hmatches : ¬ Parser.operand.Refuses text := by
    intro hrefuses
    obtain ⟨v, -, hm⟩ := hread (.start text) rfl (List.append_nil text).symm
    rw [hrefuses _ rfl rfl] at hm
    cases hm
  cases text with
  | nil => exact absurd (Parser.operand_refuses (by simp)) hmatches
  | cons x rest =>
    refine ⟨x, rest, rfl, fun hx => hmatches ?_, fun hx => hmatches ?_⟩
    · exact Parser.operand_refuses (by simp [hx])
    · exact Parser.operand_refuses (by simp [hx])

namespace Parser

variable {tail : List Char}

theorem placedOperand_spelled {c : Cursor} (hc : c.past = 0) (k : Nat) (text : List Char)
    (placed : Operand × Nat) (u : List Char) (h : IsPlacedOperand k text placed) (ht : Trails u)
    (hk : InLine c.rest k) (hr : c.rest.drop k = text ++ u) :
    placedOperand (c.advance k) =
      ofExcept (.ok (placed.1, c.col + placed.2)) (c.advance (k + text.length)) := by
  obtain ⟨hoperand, rfl⟩ := h
  obtain ⟨_, rfl, hm⟩ := operand_reads hoperand ht (c.advance placed.2) (Cursor.advance_past hc _)
    (by rw [Cursor.advance_rest, hr])
  have hlen : placed.2 ≤ c.rest.length := by
    obtain ⟨x, rest, rfl, -, -⟩ := hoperand.head
    have := length_of_drop hr (List.cons_ne_nil x rest)
    omega
  have hcol := (Cursor.advance_inLine hc hlen hk).2
  rw [Cursor.advance_advance] at hm
  have hplace : position (c.advance placed.2) =
      .matched (c.advance placed.2) (c.advance placed.2) := rfl
  rw [placedOperand, bind_matched hplace, bind_matched hm, hcol]
  rfl

/-- The operands of an instruction, from the space before them on. -/
theorem operandList_spelled {c : Cursor} (hc : c.past = 0) {k n : Nat} {list ending : List Char}
    {placeds : List (Operand × Nat)} (hn : 0 < n) (h : IsList IsPlacedOperand (k + n) list placeds)
    (he : IsEnding ending) (ht : Lexeme.AtLineEnd tail) (hk : InLine c.rest k)
    (hr : c.rest.drop k = gap n ++ (list ++ (ending ++ tail))) :
    withDefault (preceded spaces1 (sepBy1 comma placedOperand)) [] (c.advance k) =
      .matched (placeds.map fun placed => (placed.1, c.col + placed.2))
        (c.advance (k + (n + list.length))) := by
  have hhead : ∀ k text placed, IsPlacedOperand k text placed →
      ∃ x rest, text = x :: rest ∧ x ≠ ' ' := by
    intro k text placed h
    obtain ⟨x, rest, hx, hspace, -⟩ := h.1.head
    exact ⟨x, rest, hx, hspace⟩
  have hlist := spacedList_spelled hc placedOperand_ensures.forward hhead
    (fun _ _ _ h => h.1.no_newline) (placedOperand_spelled hc) hn h he ht hk hr
  have hmap : placeds.mapM (fun placed => Except.ok (ε := Fault) (placed.1, c.col + placed.2)) =
      .ok (placeds.map fun placed => (placed.1, c.col + placed.2)) := List.mapM_pure
  rw [hmap] at hlist
  exact orElse_matched hlist

theorem operandList_bare {ending : List Char} (he : IsEnding ending) (ht : Lexeme.AtLineEnd tail) :
    (withDefault (preceded spaces1 (sepBy1 comma placedOperand)) []).Reads [] (ending ++ tail)
      (· = []) := by
  obtain ⟨n, rest, heq, hrest⟩ := he.split ht
  have hspace : ∀ x ∈ rest.head?, x ≠ ' ' := fun x hx he =>
    absurd (he ▸ hrest x hx) (by decide)
  have hoperand : placedOperand.Refuses rest :=
    .bind_nil (.position _) fun _ _ =>
      .bind (operand_refuses fun x hx =>
        List.mem_cons_of_mem _ (List.mem_cons_of_mem _ (hrest x hx)))
  rw [heq]
  refine .withDefault_none ?_ []
  cases n with
  | zero => exact .bind (word_refuses (by rw [Lexeme.spaces_gap hspace]; rfl))
  | succ n => exact .bind_right (spaces1_reads (Nat.succ_pos n) hspace) fun _ _ => hoperand.bind

/-- **Every spelling of an instruction is read as that instruction**, wherever it stands before the
end of a line. -/
theorem instruction_spelled {text tail : List Char} {mnemonic : String}
    {placeds : List (Operand × Nat)} (h : IsInstruction text mnemonic placeds)
    (ht : Lexeme.AtLineEnd tail) {c : Cursor} (hc : c.past = 0) (hr : c.rest = text ++ tail) :
    instruction c =
      .matched { mnemonic := mnemonic
                 operands := placeds.map fun placed => (placed.1, c.col + placed.2)
                 col := c.col } (c.advance text.length) := by
  have hplace : position c = .matched c c := rfl
  cases h with
  | @bare _ ending hname he =>
    rw [List.append_assoc] at hr
    obtain ⟨name, hv, hword⟩ := identifier_reads hname (he.trails ht).startsWord c hc hr
    have hr' := advance_rest_of_append hr
    have hpast := Cursor.advance_past hc mnemonic.toList.length
    obtain ⟨_, rfl, hoperands⟩ := operandList_bare he ht _ hpast hr'
    obtain ⟨_, -, hend⟩ := statementEnd_reads he ht _ hpast hr'
    rw [List.length_nil, Cursor.advance_zero] at hoperands
    subst hv
    rw [instruction, bind_matched hplace, bind_matched hword, bind_matched hoperands,
      bind_matched hend, Cursor.advance_advance, List.length_append]
    rfl
  | @operands _ list ending _ n hname hn hlist he =>
    simp only [List.append_assoc] at hr
    have hgap : Lexeme.startsWord (gap n ++ (list ++ (ending ++ tail))) = false := by
      obtain ⟨m, rfl⟩ : ∃ m, n = m + 1 := ⟨n - 1, by omega⟩
      rfl
    obtain ⟨name, hv, hword⟩ := identifier_reads hname hgap c hc hr
    have hk : InLine c.rest mnemonic.toList.length := by
      rw [InLine, hr, List.take_left]
      exact hname.inline.no_newline
    have hr' : c.rest.drop mnemonic.toList.length = gap n ++ (list ++ (ending ++ tail)) := by
      rw [hr, List.drop_left]
    have hoperands := operandList_spelled hc hn hlist he ht hk hr'
    have hend' :
        (c.advance (mnemonic.toList.length + (n + list.length))).rest = ending ++ tail := by
      rw [Cursor.advance_rest, ← List.drop_drop, hr', ← List.append_assoc,
        List.drop_left' (by simp)]
    obtain ⟨_, -, hend⟩ := statementEnd_reads he ht _ (Cursor.advance_past hc _) hend'
    subst hv
    rw [instruction, bind_matched hplace, bind_matched hword, bind_matched hoperands,
      bind_matched hend, Cursor.advance_advance]
    simp only [List.length_append, Lexeme.length_gap, Nat.add_assoc]
    rfl

end Parser

/-! ## In a text -/

section
variable {text spelled tail : List Char} {offset : Nat} (hr : text.drop offset = spelled ++ tail)
  (hne : spelled ≠ [])
include hr hne

theorem Cursor.ofText_past_of_drop (line col : Int) : (ofText text offset line col).past = 0 := by
  have hlen := length_of_drop hr hne
  exact Nat.sub_eq_zero_of_le (by omega)

/-- The place after a text that is read from one line. -/
theorem Parser.matched_ofText {α : Type} {p : Parser α}
    (hp : p.Ensures fun c _ n => InLine c.rest n) {v : α} {line col : Int}
    (hm : p (.ofText text offset line col) =
      .matched v ((Cursor.ofText text offset line col).advance spelled.length)) :
    p (.ofText text offset line col) =
      .matched v (.ofText text (offset + spelled.length) line (col + spelled.length)) := by
  obtain ⟨n, hn, hafter, hinline⟩ := hp _ _ _ hm
  have hlength := congrArg (·.rest.length) hafter
  have hlen := length_of_drop hr hne
  simp only [Cursor.advance_rest, List.length_drop, Cursor.ofText] at hlength hn
  rw [hm, Cursor.ofText_advance_inLine]
  · rw [List.length_drop]
    omega
  · exact InLine.le hinline (by omega)

end

theorem Spelling.IsInstruction.ne_nil {spelled : List Char} {mnemonic : String}
    {placeds : List (Operand × Nat)} (h : IsInstruction spelled mnemonic placeds) :
    spelled ≠ [] := by
  cases h with
  | bare hname _ => simp [hname.inline.ne_nil]
  | operands hname _ _ _ => simp [hname.inline.ne_nil]

/-- **The grammar of instructions is complete.** A mnemonic and any list of operands, each in any of
its spellings, with spaces before the first, around the commas and at the end, and with or without a
semicolon, is read as that mnemonic and the values of those operands, up to the end of the line. -/
theorem Spelling.instruction_complete {text spelled tail : List Char} {offset : Nat}
    {line col : Int} {mnemonic : String} {placeds : List (Operand × Nat)}
    (h : IsInstruction spelled mnemonic placeds) (ht : Lexeme.AtLineEnd tail)
    (hr : text.drop offset = spelled ++ tail) :
    Parser.instruction (.ofText text offset line col) =
      .matched { mnemonic := mnemonic
                 operands := placeds.map fun placed => (placed.1, col + placed.2)
                 col := col }
        (.ofText text (offset + spelled.length) line (col + spelled.length)) := by
  have hpast := Cursor.ofText_past_of_drop hr h.ne_nil line col
  have hm := Parser.instruction_spelled h ht hpast hr
  have hline := (Parser.instruction_composed inLine_holdsOfLexemes).ensures inLine_additive
  exact Parser.matched_ofText hr h.ne_nil hline hm

theorem Spelling.instruction_complete_mixed :
    IsInstruction "lw  $T0 , x - 0x1F( $sp ) , '\\n',+007 , -1.5e-3 ;".toList "lw"
        [(.register ⟨8⟩, 4), (.memory ⟨29⟩ (some (.symbol { name := "x", offset := -31 })), 10),
         (.character "\n", 28), (.immediate 7, 33),
         (.float (.ofDecimal { negative := true, coefficient := 15, exponent := -4 }), 40)] ∧
      Parser.instruction
          (.ofText "m: lw  $T0 , x - 0x1F( $sp ) , '\\n',+007 , -1.5e-3 ;\nadd".toList 3 1 4) =
        .matched { mnemonic := "lw", col := 4, operands :=
          [(.register ⟨8⟩, 8), (.memory ⟨29⟩ (some (.symbol { name := "x", offset := -31 })), 14),
           (.character "\n", 32), (.immediate 7, 37),
           (.float (.ofDecimal { negative := true, coefficient := 15, exponent := -4 }), 44)] }
          (.ofText "m: lw  $T0 , x - 0x1F( $sp ) , '\\n',+007 , -1.5e-3 ;\nadd".toList 52 1
            53) := by
  have hbare : (([] : List Char), false) ∈ signs := by decide
  have hplus : (['+'], false) ∈ signs := by decide
  have hminus : (['-'], true) ∈ signs := by decide
  -- numbers, digit by digit
  have h1 : IsDigits 16 ['1'] 1 := .single (by decide) (by decide)
  have h31 : IsDigits 16 ['1', 'F'] 31 := .snoc (d := 15) h1 (by decide) (by decide)
  have h0 : IsDigits 10 ['0'] 0 := .single (by decide) (by decide)
  have h00 : IsDigits 10 ['0', '0'] 0 := .snoc (d := 0) h0 (by decide) (by decide)
  have h7 : IsDigits 10 ['0', '0', '7'] 7 := .snoc (d := 7) h00 (by decide) (by decide)
  have hwhole : IsDigits 10 ['1'] 1 := .single (by decide) (by decide)
  have hpart : IsDigits 10 ['5'] 5 := .single (by decide) (by decide)
  have h3 : IsDigits 10 ['3'] 3 := .single (by decide) (by decide)
  have hexponent : IsExponent ['e', '-', '3'] (-3) := .intro (by decide) hminus h3
  -- the operands
  have ht0 : IsRegister ['$', 'T', '0'] ⟨8⟩ :=
    .intro hbare (by decide) (Lexeme.forall_mem_of_all (by decide))
      (eq_ok_of_toOption (by decide +kernel))
  have hsp : IsRegister ['$', 's', 'p'] ⟨29⟩ :=
    .intro hbare (by decide) (Lexeme.forall_mem_of_all (by decide))
      (eq_ok_of_toOption (by decide +kernel))
  have hname : IsName "x" := by decide
  have hx : IsSymbol "x - 0x1F".toList { name := "x", offset := -31 } :=
    .shifted 1 1 hname hminus (.marked (by decide) h31)
  have hescape : IsCharacter ['\\', 'n'] '\n' := .escape (by decide)
  have hseven : IsInteger ['+', '0', '0', '7'] 7 := .intro hplus (.decimal h7 (by decide))
  have hfloat : IsFloat ['-', '1', '.', '5', 'e', '-', '3']
      (.ofDecimal { negative := true, coefficient := 15, exponent := -4 }) :=
    .intro hminus (.both hwhole hpart hexponent)
  have hlist : IsList IsPlacedOperand ("lw".toList.length + 2) _
      [(.register ⟨8⟩, 4), (.memory ⟨29⟩ (some (.symbol { name := "x", offset := -31 })), 10),
       (.character "\n", 28), (.immediate 7, 33),
       (.float (.ofDecimal { negative := true, coefficient := 15, exponent := -4 }), 40)] :=
    .intro ⟨.register ht0, rfl⟩
      (.cons 1 1 ⟨.memory 1 1 (.symbol hx) hsp, rfl⟩
        (.cons 1 1 ⟨.character hescape, rfl⟩
          (.cons 0 0 ⟨.immediate hseven (by decide), rfl⟩ (.cons 1 1 ⟨.float hfloat, rfl⟩ .nil))))
  have hmnemonic : IsName "lw" := by decide
  have h : IsInstruction "lw  $T0 , x - 0x1F( $sp ) , '\\n',+007 , -1.5e-3 ;".toList "lw" _ :=
    .operands hmnemonic (by decide) hlist (.semicolon 1)
  exact ⟨h, instruction_complete h (Lexeme.atLineEnd_newline "add".toList) rfl⟩

end MipsSource
