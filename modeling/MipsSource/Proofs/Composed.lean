import MipsSource.Expression
import MipsSource.Proofs.Blames
import MipsSource.Proofs.ItemSpec
import MipsSource.Proofs.Settled

/-!
# Parsers put together from parts

`Composed S p`: the parser `p` is put together from words, scanners that stay within the text,
places and computed answers by going on, by choice and by repetition; `S` is what holds of every
piece that a word or a scanner reads. All parsers of the library are composed. Of a composed parser
two things are known wherever it starts, also beyond the end of the text:

* `Composed.ensures`: a match ends ahead of where it starts, within the text, and what holds of
  every piece holds of all that is read, if it passes from pieces to their sequence (`Additive`).
* `Composed.ne_endless`: it comes to an end. A loop that goes on beyond its bound makes the whole
  parser fail as endless, and no composed parser does.

`Built p` lists the ways to build a parser that an expression has, over the named parsers and with
any function that settles; `Built.runs_forward` says what follows for every nesting of them, and
`Expression.parser_built` that every expression is one.
-/

set_option autoImplicit false

namespace MipsSource

namespace Cursor

/-- Moving on within a text stays in the text, and moves the offset by as much. -/
theorem ofText_advance {text : List Char} {offset n : Nat} (line col : Int)
    (hn : n ≤ (text.drop offset).length) :
    ∃ line' col', (ofText text offset line col).advance n =
      ofText text (offset + n) line' col' := by
  rw [List.length_drop] at hn
  by_cases h : n = 0
  · subst h
    exact ⟨line, col, rfl⟩
  · have hpast : (ofText text offset line col).past = 0 := Nat.sub_eq_zero_of_le (by omega)
    have hlen : n ≤ (ofText text offset line col).rest.length := by
      show n ≤ (text.drop offset).length
      rw [List.length_drop]
      omega
    generalize hc : (ofText text offset line col).advance n = c
    obtain ⟨rest, offset', past, line', col'⟩ := c
    have hrest := advance_rest n (ofText text offset line col)
    have hoffset := advance_offset hpast hlen
    have hend := advance_past hpast n
    rw [hc] at hrest hoffset hend
    refine ⟨line', col', ?_⟩
    simp only [ofText, List.drop_drop] at hrest hoffset hend
    subst hrest hoffset hend
    rw [ofText, Nat.sub_eq_zero_of_le (by omega)]

end Cursor

namespace Parser

/-! ## Parts -/

/-- A parser that is put together from parts that move on, and that fail for other reasons than an
endless loop. Of each piece that a word or a scanner reads, the text from there on and its length
satisfy `S`. -/
inductive Composed (S : List Char → Nat → Prop) : {α : Type} → Parser α → Prop
  | pure {α : Type} (v : α) : Composed S (Pure.pure v : Parser α)
  | noMatch {α : Type} : Composed S (noMatch : Parser α)
  | fail {α : Type} {fault : Fault} : fault ≠ .endless → Composed S (fail fault : Parser α)
  | position : Composed S position
  | tag {word : String} :
      (∀ text, word.toList <+: text → S text word.toList.length) → Composed S (tag word)
  /-- A scanner that finds only what is there. -/
  | scan {α : Type} {scanner : List Char → Option (α × Nat)} :
      (∀ text v n, scanner text = some (v, n) → n ≤ text.length ∧ S text n) →
      Composed S (scan scanner)
  | bind {α β : Type} {p : Parser α} {next : α → Parser β} :
      Composed S p → (∀ v, Composed S (next v)) → Composed S (p >>= next)
  | orElse {α : Type} {p q : Parser α} : Composed S p → Composed S q → Composed S (orElse p q)
  | many {α : Type} {p : Parser α} : Composed S p → Composed S (many p)

namespace Composed

variable {α β : Type} {p : Parser α} {S : List Char → Nat → Prop}

theorem ofExcept {r : Except Fault α} (h : Settled r) : Composed S (Parser.ofExcept r) := by
  cases r with
  | ok v => exact .pure v
  | error fault => exact .fail (h fault rfl)

theorem ofOption (o : Option α) : Composed S (Parser.ofOption o) := by
  cases o with
  | some v => exact .pure v
  | none => exact .noMatch

theorem map (f : α → β) (hp : Composed S p) : Composed S (f <$> p) :=
  .bind hp fun v => .pure (f v)

theorem choice : ∀ {ps : List (Parser α)}, (∀ q ∈ ps, Composed S q) → Composed S (choice ps)
  | [], _ => .noMatch
  | _ :: _, h =>
    .orElse (h _ List.mem_cons_self) (choice fun q hq => h q (List.mem_cons_of_mem _ hq))

theorem sequence : ∀ {ps : List (Parser α)}, (∀ q ∈ ps, Composed S q) → Composed S (sequence ps)
  | [], _ => .pure []
  | _ :: _, h => .bind (h _ List.mem_cons_self) fun v =>
      .bind (sequence fun q hq => h q (List.mem_cons_of_mem _ hq)) fun vs => .pure (v :: vs)

theorem withDefault (default : α) (hp : Composed S p) : Composed S (withDefault p default) :=
  .orElse hp (.pure default)

theorem optional (hp : Composed S p) : Composed S (optional p) :=
  .withDefault none (hp.map some)

theorem preceded {q : Parser β} (hp : Composed S p) (hq : Composed S q) :
    Composed S (preceded p q) :=
  .bind hp fun _ => hq

theorem sepBy1 {q : Parser β} (hp : Composed S p) (hq : Composed S q) : Composed S (sepBy1 p q) :=
  .bind hq fun _ => .bind (.many (hp.preceded hq)) fun _ => .pure _

/-- A scanner whose answer is worked out from a lexeme within the text. -/
theorem scan_map {γ : Type} {lexeme? : List Char → Option γ} {f : γ → α × Nat}
    (h : ∀ text g, lexeme? text = some g → (f g).2 ≤ text.length ∧ S text (f g).2) :
    Composed S (Parser.scan fun text => (lexeme? text).map f) := by
  refine .scan fun text v n hs => ?_
  obtain ⟨g, hg, he⟩ := Option.map_eq_some_iff.1 hs
  have hle := h text g hg
  rw [he] at hle
  exact hle

end Composed

/-! ## The parsers of the library -/

section
open Lexeme

/-- What holds of the pieces that numbers and references read. -/
structure HoldsOfWords (S : List Char → Nat → Prop) : Prop where
  identifier : ∀ text w, identifier? text = some w → S text w.length
  integer : ∀ text w, integer? text = some w → S text w.length
  symbolOffset : ∀ text v n, symbolOffset? text = some (v, n) → S text n

/-- What holds of the pieces that the words and lexemes of the language read. -/
structure HoldsOfLexemes (S : List Char → Nat → Prop) : Prop extends HoldsOfWords S where
  tag : ∀ word ∈ [";", ",", ":", "(", ")"], ∀ text, word.toList <+: text →
    S text word.toList.length
  spaces : ∀ text, S text (Lexeme.spaces text).length
  directiveName : ∀ text w, directiveName? text = some w → S text w.length
  label : ∀ text w n, label? text = some (w, n) → S text n
  registerName : ∀ text w, registerName? text = some w → S text (w.length + 1)
  decimal : ∀ text v n, decimal? text = some (v, n) → S text n
  character : ∀ text w, character? text = some w → S text (w.length + 2)
  string : ∀ text w, string? text = some w → S text (w.length + 2)

variable {S : List Char → Nat → Prop}

theorem word_composed {lexeme? : List Char → Option (List Char)}
    (h : ∀ text w, lexeme? text = some w → w.length ≤ text.length ∧ S text w.length) :
    Composed S (word lexeme?) :=
  .scan_map h

section
variable (hW : HoldsOfWords S)
include hW

theorem identifier_composed : Composed S identifier :=
  word_composed fun text w h => ⟨(identifier?_spec h).2, hW.identifier text w h⟩

theorem integer_composed : Composed S integer :=
  .bind (.scan_map fun text w h => ⟨(integer?_spec h).2, hW.integer text w h⟩)
    fun _ => .ofExcept (Numeral.settled_readLiteral _)

theorem placedInteger_composed : Composed S placedInteger :=
  .bind .position fun _ => .bind (integer_composed hW) fun _ => .pure _

theorem immediate_composed : Composed S immediate := by
  refine .bind (placedInteger_composed hW) fun placed => ?_
  simp only
  split
  · exact .pure _
  · exact .fail (Fault.ofError_ne_endless _)

theorem symbol_composed : Composed S symbol := by
  have hoffset : Composed S (scan symbolOffset?) :=
    .scan fun text v n h => ⟨symbolOffset?_spec h, hW.symbolOffset text v n h⟩
  refine .bind (identifier_composed hW) fun name => .bind hoffset.optional fun found => ?_
  split
  · exact .pure _
  · exact .bind (.ofExcept (Numeral.settled_readLiteral _)) fun _ => .pure _

theorem displacement_composed : Composed S displacement := by
  refine .choice fun q hq => ?_
  simp only [List.mem_cons, List.not_mem_nil, or_false] at hq
  rcases hq with rfl | rfl
  · exact .map _ (immediate_composed hW)
  · exact .map _ (symbol_composed hW)

end

variable (hS : HoldsOfLexemes S)
include hS

theorem tag_composed {word : String} (h : word ∈ [";", ",", ":", "(", ")"]) :
    Composed S (tag word) :=
  .tag (hS.tag word h)

theorem spaces_composed : Composed S spaces := by
  refine word_composed fun text w h => ?_
  cases h
  exact ⟨length_spaces_le text, hS.spaces text⟩

theorem spaces1_composed : Composed S spaces1 := by
  refine word_composed fun text w h => ?_
  split at h
  · cases h
  · cases h
    exact ⟨length_spaces_le text, hS.spaces text⟩

theorem string_composed : Composed S string :=
  .bind (.scan_map fun text w h =>
      ⟨quoted_length_le (string?_eq_some_iff.1 h).2, hS.string text w h⟩)
    fun _ => .ofOption _

theorem character_composed : Composed S character :=
  .bind (.scan_map fun text w h =>
      ⟨quoted_length_le (character?_eq_some_iff.1 h).2, hS.character text w h⟩)
    fun _ => .ofOption _

theorem float_composed : Composed S float :=
  .map _ (.scan fun text v n h => ⟨(decimal?_spec h).2, hS.decimal text v n h⟩)

theorem statementEnd_composed : Composed S statementEnd :=
  .bind (spaces_composed hS) fun _ =>
    .bind (.optional (tag_composed hS (by simp))) fun _ => .pure ()

theorem separator_composed {word : String} (h : word ∈ [";", ",", ":", "(", ")"]) :
    Composed S (sequence [spaces, tag word, spaces]) := by
  refine .sequence fun q hq => ?_
  simp only [List.mem_cons, List.not_mem_nil, or_false] at hq
  rcases hq with rfl | rfl | rfl
  · exact spaces_composed hS
  · exact tag_composed hS h
  · exact spaces_composed hS

theorem register_composed : Composed S register := by
  refine .bind .position fun start => .bind ?_ fun name => ?_
  · exact .scan_map fun text w h => ⟨registerName?_spec h, hS.registerName text w h⟩
  · split
    · exact .pure _
    · rename_i fault hfault
      exact .fail (Fault.locate_ne_endless (Register.settled_resolve _ fault hfault))

theorem memory_composed : Composed S memory := by
  refine .bind (displacement_composed hS.toHoldsOfWords).optional fun d =>
    .bind (tag_composed hS (by simp)) fun _ => ?_
  refine .bind (spaces_composed hS) fun _ => .bind (register_composed hS) fun base => ?_
  exact .bind (spaces_composed hS) fun _ => .bind (tag_composed hS (by simp)) fun _ => .pure _

theorem operand_composed : Composed S operand := by
  refine .choice fun q hq => ?_
  simp only [simpleOperands, List.mem_cons, List.not_mem_nil, or_false] at hq
  rcases hq with rfl | rfl | rfl | rfl | rfl | rfl
  · exact memory_composed hS
  · exact .map _ (register_composed hS)
  · exact .map _ (float_composed hS)
  · exact .map _ (immediate_composed hS.toHoldsOfWords)
  · exact .map _ (character_composed hS)
  · exact .map _ (symbol_composed hS.toHoldsOfWords)

theorem placedOperand_composed : Composed S placedOperand :=
  .bind .position fun _ => .bind (operand_composed hS) fun _ => .pure _

theorem integerDatum_composed (what : String) (bits : Nat) :
    Composed S (integerDatum what bits) := by
  have hrepetition : Composed S repetition :=
    (separator_composed hS (by simp)).preceded (placedInteger_composed hS.toHoldsOfWords)
  refine .bind (placedInteger_composed hS.toHoldsOfWords) fun placed => ?_
  simp only
  split
  · refine .bind hrepetition.optional fun found => ?_
    split
    · exact .pure _
    · split
      · exact .pure _
      · exact .fail (Fault.ofError_ne_endless _)
  · exact .fail (Fault.ofError_ne_endless _)

theorem element_composed (what : String) (bits : Nat) (symbols : Bool) :
    Composed S (element what bits symbols) := by
  unfold element
  split
  · exact .orElse (integerDatum_composed hS what bits) (.map _ (symbol_composed hS.toHoldsOfWords))
  · exact integerDatum_composed hS what bits

theorem number_composed : Composed S number :=
  .orElse (float_composed hS) (.bind (integer_composed hS.toHoldsOfWords) fun _ =>
    .ofExcept (Binary64.settled_ofInt _))

theorem count_composed (what : String) : Composed S (count what) := by
  refine .bind (placedInteger_composed hS.toHoldsOfWords) fun placed => ?_
  simp only
  split
  · exact .pure _
  · exact .fail (Fault.ofError_ne_endless _)

theorem comma_composed : Composed S comma := separator_composed hS (by simp)

theorem directiveArgs_composed (name : String) (form : DirectiveForm) :
    Composed S (directiveArgs name form) := by
  have hspaces : Composed S spaces1 := spaces1_composed hS
  have hcomma : Composed S comma := comma_composed hS
  cases form with
  | plain => exact .pure []
  | string => exact .bind (hspaces.preceded (string_composed hS)) fun _ => .pure _
  | integers bits symbols =>
    exact hspaces.preceded (hcomma.sepBy1 (element_composed hS name bits symbols))
  | floats =>
    exact .bind (hspaces.preceded (hcomma.sepBy1 (number_composed hS))) fun _ => .pure _
  | count => exact .bind (hspaces.preceded (count_composed hS name)) fun _ => .pure _
  | name => exact .bind (hspaces.preceded (identifier_composed hS.toHoldsOfWords)) fun _ => .pure _

theorem directive_composed : Composed S directive := by
  have hname : Composed S (word directiveName?) :=
    word_composed fun text w h => ⟨(directiveName?_spec h).2, hS.directiveName text w h⟩
  refine .bind hname fun name => .bind (.ofOption _) fun form => ?_
  exact .bind (directiveArgs_composed hS name form) fun _ =>
    .bind (statementEnd_composed hS) fun _ => .pure _

theorem label_composed : Composed S label :=
  .scan_map fun text found h => ⟨(label?_spec h).2.2, hS.label text found.1 found.2 h⟩

theorem instruction_composed : Composed S instruction := by
  have hlist : Composed S (sepBy1 comma placedOperand) :=
    (comma_composed hS).sepBy1 (placedOperand_composed hS)
  refine .bind .position fun start => ?_
  refine .bind (identifier_composed hS.toHoldsOfWords) fun mnemonic => ?_
  refine .bind (((spaces1_composed hS).preceded hlist).withDefault []) fun operands => ?_
  exact .bind (statementEnd_composed hS) fun _ => .pure _

theorem item_composed : Composed S item := by
  refine .choice fun q hq => ?_
  simp only [List.mem_cons, List.not_mem_nil, or_false] at hq
  rcases hq with rfl | rfl | rfl
  · exact .map _ (label_composed hS)
  · exact .map _ (directive_composed hS)
  · exact .map _ (instruction_composed hS)

end

/-! ## What holds of all that is read -/

/-- What holds of pieces that follow each other holds of them together. -/
structure Additive (S : List Char → Nat → Prop) : Prop where
  zero : ∀ text, S text 0
  add : ∀ text a b, S text a → S (text.drop a) b → S text (a + b)

section
variable {α β : Type} {S : List Char → Nat → Prop} (h : Additive S)
include h

theorem Additive.bind {p : Parser α} {next : α → Parser β}
    (hp : p.Ensures fun c _ n => S c.rest n) (hn : ∀ v, (next v).Ensures fun c _ n => S c.rest n) :
    (p >>= next).Ensures fun c _ n => S c.rest n := by
  refine .bind hp hn fun c v a w b ha hb => h.add _ a b ha ?_
  rw [Cursor.advance_rest] at hb
  exact hb

theorem Additive.chain {c : Cursor} {vs : List α} {n : Nat}
    (hc : Chain (fun c _ n => S c.rest n) c vs n) : S c.rest n := by
  induction hc with
  | nil c => exact h.zero c.rest
  | cons hq _ ih =>
    rw [Cursor.advance_rest] at ih
    exact h.add _ _ _ hq ih

theorem Additive.many {p : Parser α} (hp : p.Ensures fun c _ n => S c.rest n) :
    (many p).Ensures fun c _ n => S c.rest n :=
  hp.chain.mono fun _ _ _ hc => h.chain hc

/-- **What holds of every piece holds of all that a composed parser reads.** -/
theorem Composed.ensures {p : Parser α} (hp : Composed S p) :
    p.Ensures fun c _ n => S c.rest n := by
  induction hp with
  | pure v => exact (Ensures.pure v).mono fun c _ _ hv => hv.2 ▸ h.zero c.rest
  | noMatch => exact .noMatch
  | fail _ => exact .fail _
  | position => exact Ensures.position.mono fun c _ _ hv => hv.2 ▸ h.zero c.rest
  | tag hword => exact (Ensures.tag _).mono fun c _ _ hv => hv.2.1 ▸ hword c.rest hv.2.2
  | scan hscan => exact .scan fun c v n hs => hscan c.rest v n hs
  | bind _ _ ihp ihn => exact h.bind ihp ihn
  | orElse _ _ ihp ihq => exact .orElse ihp ihq
  | many _ ihp => exact h.many ihp

end

/-- Nothing that has to hold of a piece. -/
def anyPiece : List Char → Nat → Prop := fun _ _ => True

theorem additive_anyPiece : Additive anyPiece := ⟨fun _ => trivial, fun _ _ _ _ _ => trivial⟩

theorem holdsOfLexemes_anyPiece : HoldsOfLexemes anyPiece := by
  have hwords : HoldsOfWords anyPiece := by constructor <;> intros <;> trivial
  constructor <;> first | exact hwords | (intros; trivial)

theorem Composed.forward {α : Type} {p : Parser α} (hp : Composed anyPiece p) : p.Forward :=
  (hp.ensures additive_anyPiece).forward

/-! ## Coming to an end -/

/-- Whatever a composed parser fails with, it is not an endless loop: a round after which a loop
goes on has read a character, so no loop goes beyond its bound. -/
theorem Composed.blames {α : Type} {p : Parser α} (hp : Composed anyPiece p) :
    p.Blames fun _ fault => fault ≠ .endless := by
  induction hp with
  | pure v => exact .pure v
  | noMatch => exact .noMatch
  | fail hne =>
    intro c fault h
    cases h
    exact .here hne
  | position => exact .position
  | tag _ => exact .tag _
  | scan _ => exact .scan _
  | bind hp _ ihp ihn => exact .bind hp.forward ihp ihn
  | orElse _ _ ihp ihq => exact .orElse ihp ihq
  | many hp ihp => exact .many hp.forward ihp

/-- **Every composed parser comes to an end.** -/
theorem Composed.ne_endless {α : Type} {p : Parser α} (hp : Composed anyPiece p) (c : Cursor) :
    p c ≠ .failed .endless := by
  intro h
  obtain ⟨-, -, hne⟩ := hp.blames c _ h
  exact hne rfl

/-! ## Parser expressions -/

/-- A parser that is built by any nesting of the combinations that an expression has, over the named
parsers, words, and scanners that find only what is there; a function that is applied to the value
may be any that ends, and may have no result. -/
inductive Built : {α : Type} → Parser α → Prop
  | named (name : NamedParser) : Built name.parser
  | position : Built position
  | tag (word : String) : Built (tag word)
  | scan {α : Type} {scanner : List Char → Option (α × Nat)} :
      (∀ text v n, scanner text = some (v, n) → n ≤ text.length) → Built (scan scanner)
  | map {α β : Type} {p : Parser α} {f : α → Except Fault β} :
      (∀ v, Settled (f v)) → Built p → Built (p >>= fun v => ofExcept (f v))
  | choice {α : Type} {ps : List (Parser α)} : (∀ p ∈ ps, Built p) → Built (choice ps)
  | sequence {α : Type} {ps : List (Parser α)} : (∀ p ∈ ps, Built p) → Built (sequence ps)
  | withDefault {α : Type} {p : Parser α} (default : α) : Built p → Built (withDefault p default)
  | many {α : Type} {p : Parser α} : Built p → Built (many p)
  | preceded {α β : Type} {p : Parser α} {q : Parser β} : Built p → Built q → Built (preceded p q)
  | sepBy1 {α β : Type} {p : Parser α} {q : Parser β} : Built p → Built q → Built (sepBy1 p q)

theorem named_composed (name : NamedParser) : Composed anyPiece name.parser := by
  have hS := holdsOfLexemes_anyPiece
  cases name with
  | identifier => exact .map _ (identifier_composed hS.toHoldsOfWords)
  | string => exact .map _ (string_composed hS)
  | character => exact .map _ (character_composed hS)
  | integer => exact .map _ (integer_composed hS.toHoldsOfWords)
  | float => exact .map _ (float_composed hS)
  | spaces => exact .map _ (spaces_composed hS)
  | spaces1 => exact .map _ (spaces1_composed hS)
  | comma => exact .map _ (comma_composed hS)
  | register => exact .map _ (register_composed hS)
  | immediate => exact .map _ (immediate_composed hS.toHoldsOfWords)
  | symbol => exact .map _ (symbol_composed hS.toHoldsOfWords)
  | memory => exact .map _ (memory_composed hS)
  | operand => exact .map _ (operand_composed hS)
  | placedOperand => exact .map _ (placedOperand_composed hS)
  | instruction => exact .map _ (instruction_composed hS)
  | directive => exact .map _ (directive_composed hS)
  | label => exact .map _ (label_composed hS)
  | item => exact .map _ (item_composed hS)
  | position => exact .map _ .position

theorem Built.composed {α : Type} {p : Parser α} (hp : Built p) : Composed anyPiece p := by
  induction hp with
  | named name => exact named_composed name
  | position => exact .position
  | tag word => exact .tag fun _ _ => trivial
  | scan h => exact .scan fun text v n hs => ⟨h text v n hs, trivial⟩
  | map hf _ ih => exact .bind ih fun v => .ofExcept (hf v)
  | choice _ ih => exact .choice ih
  | sequence _ ih => exact .sequence ih
  | withDefault default _ ih => exact ih.withDefault default
  | many _ ih => exact .many ih
  | preceded _ _ ihp ihq => exact ihp.preceded ihq
  | sepBy1 _ _ ihp ihq => exact ihp.sepBy1 ihq

/-- **Every parser moves forward and keeps true places.** Wherever a built parser starts, also
beyond the end of the text, it comes to an end: no loop in it reaches its bound, and repeating the
parser without any bound comes to one result, which is the one that is computed. A match ends in the
same text, not before where it started; and if it started at the true line and column of its offset,
it ends at those of the offset it reached. -/
theorem Built.runs_forward {α : Type} {p : Parser α} (hp : Built p) (text : List Char)
    (offset : Nat) (line col : Int) :
    p (.ofText text offset line col) ≠ .failed .endless ∧
      (∀ r, Loop p (.ofText text offset line col) r ↔
        collect p (.ofText text offset line col) = r) ∧
      ∀ value after, p (.ofText text offset line col) = .matched value after →
        ∃ offset' line' col', after = .ofText text offset' line' col' ∧ offset ≤ offset' ∧
          (offset ≤ text.length → line = Text.lineAt text offset → col = Text.colAt text offset →
            offset' ≤ text.length ∧ line' = Text.lineAt text offset' ∧
              col' = Text.colAt text offset') := by
  refine ⟨hp.composed.ne_endless _, fun r => (collect_iff hp.composed.forward).symm,
    fun value after h => ?_⟩
  obtain ⟨n, hn, rfl, -⟩ := hp.composed.forward _ value after h
  by_cases htrue : offset ≤ text.length ∧ line = Text.lineAt text offset ∧
      col = Text.colAt text offset
  · obtain ⟨hle, rfl, rfl⟩ := htrue
    have hend : offset + n ≤ text.length := by
      have : n ≤ (text.drop offset).length := hn
      rw [List.length_drop] at this
      omega
    refine ⟨offset + n, Text.lineAt text (offset + n), Text.colAt text (offset + n),
      Cursor.atOffset_advance hend, by omega, fun _ _ _ => ⟨hend, rfl, rfl⟩⟩
  · obtain ⟨line', col', hafter⟩ := Cursor.ofText_advance line col hn
    exact ⟨offset + n, line', col', hafter, by omega, fun h1 h2 h3 => absurd ⟨h1, h2, h3⟩ htrue⟩

end Parser

namespace Expression

open MipsSource.Parser

theorem match?_length {kind : LexemeKind} {text : List Char} {m : LexemeMatch}
    (h : kind.match? text = some m) : m.whole.length ≤ text.length := by
  have htake : ∀ n, (text.take n).length ≤ text.length := fun n => by
    rw [List.length_take]
    omega
  cases kind with
  | blanks => cases h; exact htake _
  | identifier =>
    obtain ⟨w, hw, rfl⟩ := Option.map_eq_some_iff.1 h
    exact (Lexeme.identifier?_spec hw).2
  | integer =>
    obtain ⟨w, hw, rfl⟩ := Option.map_eq_some_iff.1 h
    exact (Lexeme.integer?_spec hw).2
  | directive =>
    obtain ⟨w, hw, rfl⟩ := Option.map_eq_some_iff.1 h
    exact (Lexeme.directiveName?_spec hw).2
  | register =>
    obtain ⟨w, hw, rfl⟩ := Option.map_eq_some_iff.1 h
    exact Lexeme.registerName?_spec hw
  | decimal | character | string | symbolOffset | label =>
    obtain ⟨w, hw, rfl⟩ := Option.map_eq_some_iff.1 h
    exact htake _

/-- The text of a part of a lexeme, if the lexeme has it. -/
def partValue (part : Nat) (m : LexemeMatch) : Except Fault Value :=
  match m.part? part with
  | some text => .ok (.text (String.ofList text))
  | none => .error .missingElement

theorem settled_partValue (part : Nat) (m : LexemeMatch) : Settled (partValue part m) := by
  unfold partValue
  split
  · exact .ok _
  · exact .error nofun

theorem lexemePart_eq (kind : LexemeKind) (part : Nat) :
    lexemePart kind part =
      (scan fun text => (kind.match? text).map fun m => (m, m.whole.length)) >>= fun m =>
        Parser.ofExcept (partValue part m) := by
  unfold lexemePart
  congr 1
  funext m
  unfold partValue
  cases m.part? part <;> rfl

theorem lexemePart_built (kind : LexemeKind) (part : Nat) : Built (lexemePart kind part) := by
  rw [lexemePart_eq]
  refine .map (settled_partValue part) (.scan fun text v n hs => ?_)
  obtain ⟨m, hm, he⟩ := Option.map_eq_some_iff.1 hs
  cases he
  exact match?_length hm

theorem map_built {α β : Type} {p : Parser α} (f : α → β) (hp : Built p) : Built (f <$> p) :=
  .map (fun v => Settled.ok (f v)) hp

mutual

/-- The parser that an expression describes is built. -/
theorem parser_built : ∀ e : Expression, Built e.parser
  | .named p => .named p
  | .tag word => map_built _ (.tag word)
  | .choice ps => .choice (parsers_built ps)
  | .sequence ps => map_built _ (.sequence (parsers_built ps))
  | .optional p _ => .withDefault _ (parser_built p)
  | .many p => map_built _ (.many (parser_built p))
  | .preceded p q => .preceded (parser_built p) (parser_built q)
  | .sepBy1 separator item => map_built _ (.sepBy1 (parser_built separator) (parser_built item))
  | .lexeme kind part => lexemePart_built kind part
  | .map function p => .map function.settled_apply (parser_built p)

theorem parsers_built : ∀ es : List Expression, ∀ p ∈ parsers es, Built p
  | [], _, hp => absurd hp List.not_mem_nil
  | e :: es, p, hp => by
    rcases List.mem_cons.1 hp with rfl | hp
    · exact parser_built e
    · exact parsers_built es p hp

end

end Expression

namespace Parser

/-- A list over three lines, and an expression that starts beyond the end of the text. -/
theorem runs_forward_list :
    sepBy1 (tag ",\n") (withDefault (tag "ab") "-") (.ofText "ab,\n,\nab".toList 0 1 1) =
        .matched ["ab", "-", "ab"] (.ofText "ab,\n,\nab".toList 8 3 3) ∧
      (∃ offset' line' col', Cursor.ofText "ab,\n,\nab".toList 8 3 3 =
          .ofText "ab,\n,\nab".toList offset' line' col' ∧ 0 ≤ offset' ∧
        (0 ≤ "ab,\n,\nab".toList.length → 1 = Text.lineAt "ab,\n,\nab".toList 0 →
          1 = Text.colAt "ab,\n,\nab".toList 0 → offset' ≤ "ab,\n,\nab".toList.length ∧
            line' = Text.lineAt "ab,\n,\nab".toList offset' ∧
            col' = Text.colAt "ab,\n,\nab".toList offset')) ∧
      Loop (withDefault (tag "ab") "-") (.ofText "abab".toList 0 1 1)
        (.ok (["ab", "ab"], .ofText "abab".toList 4 1 5)) ∧
      (Expression.many (.choice [.named .identifier, .lexeme .blanks 0])).parser
        (.ofText "ab".toList 7 1 1) ≠ .failed .endless := by
  have hword : Built (withDefault (tag "ab") "-") := .withDefault "-" (.tag "ab")
  have hlist : Built (sepBy1 (tag ",\n") (withDefault (tag "ab") "-")) :=
    .sepBy1 (.tag ",\n") hword
  have hmatch : sepBy1 (tag ",\n") (withDefault (tag "ab") "-")
      (.ofText "ab,\n,\nab".toList 0 1 1) =
      .matched ["ab", "-", "ab"] (.ofText "ab,\n,\nab".toList 8 3 3) := by
    decide +kernel
  -- the third round matches too, but reads nothing
  have hloop : collect (withDefault (tag "ab") "-") (.ofText "abab".toList 0 1 1) =
      .ok (["ab", "ab"], .ofText "abab".toList 4 1 5) := by
    rfl
  exact ⟨hmatch, (Built.runs_forward hlist _ _ _ _).2.2 _ _ hmatch,
    ((Built.runs_forward hword _ _ _ _).2.1 _).2 hloop,
    (Built.runs_forward (Expression.parser_built _) _ _ _ _).1⟩

end Parser

end MipsSource
