import MipsSource.Proofs.ListingText
import MipsSource.Proofs.ShortRuns

/-!
# Which programs can be listed

Almost every number that is read has a range, and so it is short enough to be written. The offset of
a symbol has none: its decimal digits are limited in number, its hexadecimal digits are not. So a
program can be listed exactly if the offsets in it can be written, and where one cannot the text has
a hexadecimal numeral of more than 3571 digits.

* `RendersIf`: rendering gives a text under a condition, and otherwise fails for too many digits.
* `Directive.rendersIf`, `Item.rendersIf`: the condition on what is well formed is on its symbols.
* `Parser.item_offsets`: the symbols of an item that is read, and the text ahead of it.
* `Program.listing_iff_writable`: which of the programs that are read have a listing.
-/

set_option autoImplicit false

namespace MipsSource

/-! ## Symbols of items -/

namespace Displacement

/-- The symbol of a displacement, if it is one. -/
def symbols : Displacement → List Symbol
  | .immediate _ => []
  | .symbol s => [s]

end Displacement

namespace Operand

/-- The symbols of an operand, alone or as a displacement. -/
def symbols : Operand → List Symbol
  | .memory _ (some d) => d.symbols
  | .symbol s => [s]
  | _ => []

end Operand

namespace Datum

/-- The symbol of a piece of data, if it is one. -/
def symbols : Datum → List Symbol
  | .symbol s => [s]
  | _ => []

end Datum

namespace Item

/-- The symbols that the data of a directive or the operands of an instruction refer to. -/
def symbols : Item → List Symbol
  | .label _ => []
  | .directive d => d.args.flatMap Datum.symbols
  | .instruction i => i.operands.flatMap fun placed => placed.1.symbols

end Item

/-- The offsets of all symbols can be written. -/
def AllWritable (symbols : List Symbol) : Prop :=
  ∀ s ∈ symbols, s.Writable

theorem allWritable_nil : AllWritable [] := by
  simp [AllWritable]

theorem allWritable_singleton {s : Symbol} : AllWritable [s] ↔ s.Writable := by
  simp [AllWritable]

theorem allWritable_flatMap {α : Type} {symbols : α → List Symbol} {xs : List α} :
    AllWritable (xs.flatMap symbols) ↔ ∀ x ∈ xs, AllWritable (symbols x) :=
  List.forall_mem_flatMap

/-! ## Rendering under a condition -/

/-- The rendering is there if `P` holds, and otherwise fails for a number with too many digits. -/
structure RendersIf {α : Type} (rendering : Except Fault α) (P : Prop) : Prop where
  ok : P → ∃ shown, rendering = .ok shown
  error : ¬ P → rendering = .error .tooManyDigits

namespace RendersIf

variable {α β : Type} {r : Except Fault α} {P Q : Prop}

/-- What is always there needs no condition. -/
theorem of_ok {shown : α} (h : r = .ok shown) (hP : P) : RendersIf r P :=
  ⟨fun _ => ⟨shown, h⟩, fun hn => absurd hP hn⟩

theorem congr (h : RendersIf r P) (hPQ : P ↔ Q) : RendersIf r Q :=
  ⟨fun hQ => h.ok (hPQ.2 hQ), fun hn => h.error fun hP => hn (hPQ.1 hP)⟩

theorem map {f : α → β} (h : RendersIf r P) : RendersIf (r.map f) P := by
  refine ⟨fun hP => ?_, fun hn => ?_⟩
  · obtain ⟨shown, hr⟩ := h.ok hP
    exact ⟨f shown, by rw [hr]; rfl⟩
  · rw [h.error hn]
    rfl

/-- A list is rendered if each of its elements is; the first that is not ends it. -/
theorem mapM {render : α → Except Fault β} {condition : α → Prop} {xs : List α}
    (h : ∀ x ∈ xs, RendersIf (render x) (condition x)) :
    RendersIf (xs.mapM render) (∀ x ∈ xs, condition x) := by
  induction xs with
  | nil => exact of_ok rfl (by simp)
  | cons x xs ih =>
    have hx := h x List.mem_cons_self
    have hxs := ih fun y hy => h y (List.mem_cons_of_mem x hy)
    rw [List.forall_mem_cons, List.mapM_cons]
    by_cases hfirst : condition x
    · obtain ⟨y, hy⟩ := hx.ok hfirst
      rw [hy]
      by_cases hrest : ∀ x ∈ xs, condition x
      · obtain ⟨ys, hys⟩ := hxs.ok hrest
        rw [hys]
        exact of_ok rfl ⟨hfirst, hrest⟩
      · rw [hxs.error hrest]
        exact ⟨fun hall => absurd hall.2 hrest, fun _ => rfl⟩
    · rw [hx.error hfirst]
      exact ⟨fun hall => absurd hall.1 hfirst, fun _ => rfl⟩

end RendersIf

theorem Symbol.rendersIf (s : Symbol) : RendersIf s.render s.Writable := by
  refine ⟨fun hw => ⟨_, render_eq hw⟩, fun hn => ?_⟩
  have hlong : ∀ i : Int, i.natAbs = s.offset.natAbs → Numeral.write i = .error .tooManyDigits := by
    intro i hi
    have hshow : ¬ Numeral.isShowable i = true := by
      rw [Numeral.isShowable_iff, hi]
      exact hn
    rw [Numeral.write, if_neg hshow]
  rw [render]
  split
  · rw [hlong _ rfl]
    rfl
  · split
    · rw [hlong _ (Int.natAbs_neg _)]
      rfl
    · -- an offset of zero has one digit
      have hzero : s.offset = 0 := by omega
      exact absurd (by rw [Writable, hzero]; decide) hn

/-! ## Operands -/

theorem Displacement.rendersIf {d : Displacement} (h : d.WellFormed) :
    RendersIf d.render (AllWritable d.symbols) := by
  cases d with
  | immediate value =>
    exact .of_ok (Numeral.write_eq_ok (IsImmediate.showable h)) allWritable_nil
  | symbol s => exact s.rendersIf.congr allWritable_singleton.symm

theorem Operand.rendersIf {o : Operand} (h : o.WellFormed) :
    RendersIf o.render (AllWritable o.symbols) := by
  cases o with
  | register r => exact .of_ok rfl allWritable_nil
  | memory base d =>
    cases d with
    | none => exact .of_ok rfl allWritable_nil
    | some d => exact (Displacement.rendersIf (h d rfl)).map
  | immediate value =>
    exact .of_ok (Numeral.write_eq_ok (IsImmediate.showable h)) allWritable_nil
  | symbol s => exact s.rendersIf.congr allWritable_singleton.symm
  | character value => exact .of_ok rfl allWritable_nil
  | float value => exact .of_ok rfl allWritable_nil

/-! ## Directives -/

theorem Datum.rendersIf {d : Datum} (h : d.IsPlain) :
    RendersIf d.render (AllWritable d.symbols) := by
  cases d with
  | int value => exact .of_ok (Numeral.write_eq_ok (IsImmediate.showable h)) allWritable_nil
  | repeated value count =>
    obtain ⟨hvalue, hcount⟩ := h
    have hshow : Numeral.isShowable count = true :=
      Numeral.isShowable_of_bounds (by omega) (by omega)
    have hrender : (Datum.repeated value count).render =
        .ok (Numeral.text value ++ ":" ++ Numeral.text count) := by
      rw [render, Numeral.write_eq_ok (IsImmediate.showable hvalue), Numeral.write_eq_ok hshow]
      rfl
    exact .of_ok hrender allWritable_nil
  | symbol s => exact s.rendersIf.congr allWritable_singleton.symm
  | float value => exact .of_ok rfl allWritable_nil
  | text name => exact .of_ok rfl allWritable_nil

theorem Directive.rendersIf {d : Directive} (h : d.WellFormed) :
    RendersIf d.render (AllWritable (d.args.flatMap Datum.symbols)) := by
  obtain ⟨-, ⟨hquoted, text, hargs⟩ | ⟨hplain, hargs⟩⟩ := h.quoted_or_plain
  · rw [render, if_pos hquoted, hargs]
    exact .of_ok rfl allWritable_nil
  · rw [render, if_neg (by rw [hplain]; decide)]
    exact (RendersIf.mapM fun a ha => Datum.rendersIf (hargs a ha)).map.congr
      allWritable_flatMap.symm

/-! ## Items and listings -/

/-- **A well-formed item can be written** exactly if the offsets of its symbols can. -/
theorem Item.rendersIf {i : Item} (h : i.WellFormed) :
    RendersIf i.render (AllWritable i.symbols) := by
  cases i with
  | label name => exact .of_ok rfl allWritable_nil
  | directive d => exact Directive.rendersIf h
  | instruction ins =>
    have hoperands : RendersIf (ins.operands.mapM fun entry => entry.1.render)
        (∀ entry ∈ ins.operands, AllWritable entry.1.symbols) :=
      .mapM fun entry he => Operand.rendersIf (h.2 entry he)
    exact hoperands.map.congr allWritable_flatMap.symm

theorem Program.listing_rendersIf {p : Program} (h : ∀ entry ∈ p.items, entry.1.WellFormed) :
    RendersIf p.listing (∀ entry ∈ p.items, AllWritable entry.1.symbols) :=
  .mapM fun entry he => (Item.rendersIf (h entry he)).map

/-! ## Long numerals -/

/-- The text has a hexadecimal numeral of more than 3571 digits. -/
def HasLongHex (text : List Char) : Prop :=
  ∃ letter digits, letter ∈ ['x', 'X'] ∧ Lexeme.isDigits 16 digits = true ∧
    3571 < digits.length ∧ '0' :: letter :: digits <:+: text

theorem HasLongHex.mono {text whole : List Char} (h : HasLongHex text) (ht : text <:+: whole) :
    HasLongHex whole := by
  obtain ⟨letter, digits, hletter, hdigits, hlen, hin⟩ := h
  exact ⟨letter, digits, hletter, hdigits, hlen, hin.trans ht⟩

/-- So many hexadecimal digits stand for a number that can be written. -/
theorem pow_sixteen_le_tenPow {n : Nat} (h : n ≤ 3571) : Nat.pow 16 n ≤ tenPow 4300 :=
  calc Nat.pow 16 n = twoPow (4 * n) := pow_sixteen_eq n
    _ ≤ twoPow (4 * 3571) := twoPow_le (Nat.mul_le_mul_left 4 h)
    _ ≤ tenPow 4300 := by decide +kernel

/-- **An offset that is read** can be written, unless it is hexadecimal and long. -/
theorem Numeral.length_readLiteral_offset {word : List Char} {v : Int}
    (hw : Lexeme.isOffset word = true) (h : readLiteral word = .ok v) :
    (Nat.toDigits 10 v.natAbs).length ≤ 4300 ∨ HasLongHex word := by
  have hbare : IsMark [] := .inl rfl
  rw [length_toDigits_le_iff (by decide)]
  rcases Bool.or_eq_true_iff.1 hw with hd | hd
  · -- too many decimal digits are not read
    obtain ⟨n, hn, hread⟩ := readDigits_of_isDigits hd
    have hliteral := readLiteral_digits hbare hd
    rw [List.nil_append, h, hread] at hliteral
    split at hliteral
    · cases hliteral
    · rename_i hshort
      cases hliteral
      have hlen : word.length ≤ 4300 := Nat.not_lt.1 fun hlong => hshort ⟨rfl, hlong⟩
      rw [natAbs_signed]
      exact .inl (Nat.lt_of_lt_of_le hn (tenPow_le hlen))
  · obtain ⟨letter, digits, base, rfl, hb, hbase, hdigits⟩ := isMarked_cases hd
    obtain rfl : base = 16 := of_decide_eq_true hbase
    have hletter : letter ∈ ['x', 'X'] := by
      have hall : ∀ mark ∈ baseMarks, mark.2 = 16 → mark.1 ∈ ['x', 'X'] := by decide
      exact hall _ (markedBase?_eq_some_iff.1 hb) rfl
    obtain ⟨n, hn, hread⟩ := readDigits_of_isDigits hdigits
    have hliteral := readLiteral_marked hbare (markedBase?_cases hb).1 hb hdigits
    rw [List.nil_append, h, hread, if_neg fun hten => absurd hten.1 (by decide)] at hliteral
    cases hliteral
    rw [natAbs_signed]
    by_cases hlong : 3571 < digits.length
    · exact .inr ⟨letter, digits, hletter, hdigits, hlong, List.infix_rfl⟩
    · exact .inl (Nat.lt_of_lt_of_le hn (pow_sixteen_le_tenPow (Nat.not_lt.1 hlong)))

/-! ## Reading offsets -/

namespace Parser

/-- The offsets of symbols that are read at a place can be written, unless a long hexadecimal
numeral stands ahead. -/
def OffsetsAt (c : Cursor) (symbols : List Symbol) : Prop :=
  ¬ HasLongHex c.rest → AllWritable symbols

theorem offsetsAt_nil (c : Cursor) : OffsetsAt c [] :=
  fun _ => allWritable_nil

theorem OffsetsAt.of_advance {c : Cursor} {n : Nat} {symbols : List Symbol}
    (h : OffsetsAt (c.advance n) symbols) : OffsetsAt c symbols := by
  intro hnot
  refine h fun hlong => hnot ?_
  rw [Cursor.advance_rest] at hlong
  exact hlong.mono (List.drop_suffix n c.rest).isInfix

theorem pure_offsets {α : Type} {symbols : α → List Symbol} {v : α} (hv : symbols v = []) :
    (pure v : Parser α).Ensures fun c w _ => OffsetsAt c (symbols w) := by
  refine (Ensures.pure v).mono ?_
  intro c w _ h
  obtain ⟨rfl, -⟩ := h
  rw [hv]
  exact offsetsAt_nil c

/-- The symbols of a list are those of its items, each of which is read further on. -/
theorem spacedList_offsets {α : Type} {p : Parser α} {symbols : α → List Symbol}
    (hp : p.Ensures fun c v _ => OffsetsAt c (symbols v)) :
    (preceded spaces1 (sepBy1 comma p)).Ensures fun c vs _ => OffsetsAt c (vs.flatMap symbols) := by
  refine .preceded spaces1_forward (.sepBy1 comma_forward hp) ?_
  intro c _ a vs b _ h hnot
  refine allWritable_flatMap.2 fun v hv => ?_
  obtain ⟨k, m, -, hat⟩ := h.2 v hv
  exact hat.of_advance.of_advance hnot

theorem symbolOffset_offsets :
    (scan Lexeme.symbolOffset?).Ensures fun c found _ => ∀ v,
      Numeral.readLiteral found.2 = .ok v →
        (Nat.toDigits 10 v.natAbs).length ≤ 4300 ∨ HasLongHex c.rest := by
  refine Ensures.scan fun c found n hs => ⟨Lexeme.symbolOffset?_spec hs, fun v hv => ?_⟩
  obtain ⟨hoffset, hin⟩ := Lexeme.symbolOffset?_parts hs
  exact (Numeral.length_readLiteral_offset hoffset hv).imp id fun hlong => hlong.mono hin

theorem symbol_offsets : symbol.Ensures fun c s _ => OffsetsAt c [s] := by
  refine .bind identifier_ensures (R := fun _ c s _ => OffsetsAt c [s]) (fun name => ?_)
    fun _ _ _ _ _ _ h => h.of_advance
  refine .bind (.optional symbolOffset_offsets) (R := fun found _ s _ =>
    s.offset = 0 ∨ ∃ offset v, found = some offset ∧ Numeral.readLiteral offset.2 = .ok v ∧
      s.offset.natAbs = v.natAbs) (fun found => ?_) ?_
  · split
    · exact (Ensures.pure _).mono fun _ _ _ h => by rw [h.1]; exact .inl rfl
    · rename_i mark numeral
      refine .bind (.ofExcept _) (fun distance => .pure _) ?_
      intro c distance a s b hdistance hs
      obtain ⟨rfl, -⟩ := hs
      refine .inr ⟨(mark, numeral), distance, rfl, hdistance.1, ?_⟩
      dsimp only
      split
      · exact Int.natAbs_neg distance
      · rfl
  · intro c found a s b hfound hs hnot
    rw [allWritable_singleton, Symbol.Writable]
    rcases hs with hzero | ⟨offset, v, rfl, hv, habs⟩
    · rw [hzero]
      decide
    · rcases hfound with ⟨_, heq, hshort⟩ | ⟨heq, -⟩
      · cases heq
        rw [habs]
        exact (hshort v hv).resolve_right hnot
      · cases heq

theorem displacement_offsets : displacement.Ensures fun c d _ => OffsetsAt c d.symbols := by
  refine .choice fun p hp => ?_
  simp only [List.mem_cons, List.not_mem_nil, or_false] at hp
  rcases hp with rfl | rfl
  · exact .map immediate_ensures fun c _ _ _ => offsetsAt_nil c
  · exact .map symbol_offsets fun _ _ _ h => h

theorem memory_offsets : memory.Ensures fun c o _ => OffsetsAt c o.symbols := by
  refine .bind (.optional displacement_offsets) memoryBase_ensures ?_
  intro c d a o b hd h
  obtain ⟨⟨base, rfl⟩, -⟩ := h
  rcases hd with ⟨d, rfl, hd⟩ | ⟨rfl, -⟩
  · exact hd
  · exact offsetsAt_nil c

theorem operand_offsets : operand.Ensures fun c o _ => OffsetsAt c o.symbols := by
  refine .choice fun p hp => ?_
  simp only [simpleOperands, List.mem_cons, List.not_mem_nil, or_false] at hp
  rcases hp with rfl | rfl | rfl | rfl | rfl | rfl
  · exact memory_offsets
  · exact .map register_consumes fun c _ _ _ => offsetsAt_nil c
  · exact .map float_consumes fun c _ _ _ => offsetsAt_nil c
  · exact .map immediate_ensures fun c _ _ _ => offsetsAt_nil c
  · exact .map character_ensures fun c _ _ _ => offsetsAt_nil c
  · exact .map symbol_offsets fun _ _ _ h => h

theorem placedOperand_offsets :
    placedOperand.Ensures fun c placed _ => OffsetsAt c placed.1.symbols := by
  refine .bind .position (R := fun _ c placed _ => OffsetsAt c placed.1.symbols) (fun start => ?_)
    fun _ _ _ _ _ _ h => h.of_advance
  refine .bind operand_offsets (fun value => .pure (value, start.col)) ?_
  intro c value a placed b h hplaced
  obtain ⟨rfl, -⟩ := hplaced
  exact h

theorem operandList_offsets :
    (withDefault (preceded spaces1 (sepBy1 comma placedOperand)) []).Ensures fun c placeds _ =>
      OffsetsAt c (placeds.flatMap fun placed => placed.1.symbols) := by
  exact .orElse (spacedList_offsets placedOperand_offsets) (pure_offsets rfl)

theorem instruction_offsets :
    instruction.Ensures fun c i _ => OffsetsAt c (Item.instruction i).symbols := by
  refine .bind .position (R := fun _ c i _ => OffsetsAt c (Item.instruction i).symbols)
    (fun start => ?_) fun _ _ _ _ _ _ h => h.of_advance
  refine .bind identifier_ensures (R := fun _ c i _ => OffsetsAt c (Item.instruction i).symbols)
    (fun mnemonic => ?_) fun _ _ _ _ _ _ h => h.of_advance
  refine .bind operandList_offsets (R := fun operands _ i _ => i =
    { mnemonic := mnemonic, operands := operands, col := start.col }) (fun operands => ?_) ?_
  · exact .bind statementEnd_forward (fun _ => .pure _) fun _ _ _ _ _ _ h => h.1
  · intro c operands a i b h hi
    subst hi
    exact h

theorem integerDatum_offsets (what : String) (bits : Nat) :
    (integerDatum what bits).Ensures fun c d _ => OffsetsAt c d.symbols := by
  refine .bind placedInteger_ensures (R := fun _ c d _ => OffsetsAt c d.symbols) (fun placed => ?_)
    fun _ _ _ _ _ _ h => h.of_advance
  simp only
  split
  · refine .bind (.optional repetition_forward) (R := fun _ c d _ => OffsetsAt c d.symbols)
      (fun found => ?_) fun _ _ _ _ _ _ h => h.of_advance
    split
    · exact pure_offsets rfl
    · split
      · exact pure_offsets rfl
      · exact failRange_ensures _ _ _ _
  · exact failRange_ensures _ _ _ _

theorem element_offsets (what : String) (bits : Nat) (symbols : Bool) :
    (element what bits symbols).Ensures fun c d _ => OffsetsAt c d.symbols := by
  unfold element
  split
  · exact .orElse (integerDatum_offsets what bits) (.map symbol_offsets fun _ _ _ h => h)
  · exact integerDatum_offsets what bits

/-- A directive refers to symbols only in a list of integers. -/
theorem directiveArgs_offsets (name : String) (form : DirectiveForm) :
    (directiveArgs name form).Ensures fun c args _ => OffsetsAt c (args.flatMap Datum.symbols) := by
  cases form with
  | plain => exact pure_offsets rfl
  | string =>
    have htext : (preceded spaces1 string).Forward := .preceded spaces1_forward string_consumes
      fun _ _ _ _ _ _ _ => trivial
    exact .bind htext (fun text => pure_offsets rfl) fun _ _ _ _ _ _ h => h.of_advance
  | integers bits symbols => exact spacedList_offsets (element_offsets name bits symbols)
  | floats =>
    have hvalues : (preceded spaces1 (sepBy1 comma number)).Forward :=
      .preceded spaces1_forward (.sepBy1 comma_forward number_forward)
        fun _ _ _ _ _ _ _ => trivial
    refine .bind hvalues (fun values => pure_offsets ?_) fun _ _ _ _ _ _ h => h.of_advance
    simp [List.flatMap_map, Datum.symbols]
  | count =>
    have hcount : (preceded spaces1 (count name)).Forward :=
      .preceded spaces1_forward (count_ensures name) fun _ _ _ _ _ _ _ => trivial
    exact .bind hcount (fun value => pure_offsets rfl) fun _ _ _ _ _ _ h => h.of_advance
  | name =>
    have hname : (preceded spaces1 identifier).Forward :=
      .preceded spaces1_forward identifier_ensures fun _ _ _ _ _ _ _ => trivial
    exact .bind hname (fun symbol => pure_offsets rfl) fun _ _ _ _ _ _ h => h.of_advance

theorem directive_offsets :
    directive.Ensures fun c d _ => OffsetsAt c (Item.directive d).symbols := by
  have hname : (word Lexeme.directiveName?).Forward :=
    word_forward fun _ _ h => (Lexeme.directiveName?_spec h).2
  refine .bind hname (R := fun _ c d _ => OffsetsAt c (Item.directive d).symbols) (fun name => ?_)
    fun _ _ _ _ _ _ h => h.of_advance
  refine .bind (.ofOption _) (R := fun _ c d _ => OffsetsAt c (Item.directive d).symbols)
    (fun form => ?_) fun _ _ _ _ _ _ h => h.of_advance
  refine .bind (directiveArgs_offsets name form)
    (R := fun args _ d _ => d = { name := name, args := args }) (fun args => ?_) ?_
  · exact .bind statementEnd_forward (fun _ => .pure _) fun _ _ _ _ _ _ h => h.1
  · intro c args a d b h hd
    subst hd
    exact h

/-- **The offsets in an item** can be written, unless a long hexadecimal numeral stands ahead. -/
theorem item_offsets : item.Ensures fun c i _ => OffsetsAt c i.symbols := by
  refine .choice fun p hp => ?_
  simp only [List.mem_cons, List.not_mem_nil, or_false] at hp
  rcases hp with rfl | rfl | rfl
  · exact .map label_ensures fun c _ _ _ => offsetsAt_nil c
  · exact .map directive_offsets fun _ _ _ h => h
  · exact .map instruction_offsets fun _ _ _ h => h

end Parser

/-! ## Programs -/

namespace Program

/-- The offsets in a program that was read can be written, unless its text has a long hexadecimal
numeral. -/
theorem allWritable_of_ofText {text : List Char} {file : Option String} {tabWidth : Int}
    {p : Program} (h : ofText text file tabWidth = .ok p) :
    ∃ expanded, Text.expandTabs tabWidth text = .ok expanded ∧
      (¬ HasLongHex expanded → ∀ entry ∈ p.items, AllWritable entry.1.symbols) := by
  obtain ⟨expanded, hexpand, hread⟩ := ofText_eq_ok h
  rw [Cursor.start_eq_atOffset] at hread
  obtain ⟨places, hall, -⟩ := read_itemsAt (Nat.zero_le _) hread
  refine ⟨expanded, hexpand, fun hnot entry hentry => ?_⟩
  obtain ⟨place, hat⟩ := exists_itemAt hall entry hentry
  obtain ⟨n, -, -, hoffsets⟩ := Parser.item_offsets _ _ _ hat.reads
  refine hoffsets fun hlong => hnot ?_
  rw [Cursor.atOffset_rest] at hlong
  exact hlong.mono (List.drop_suffix _ expanded).isInfix

/-- **Which programs can be listed.** A program that was read has a listing, with one line for each
item, exactly if the offsets of its symbols can be written. Otherwise the listing fails for a number
with too many digits and in no other way, and the text has a hexadecimal numeral of more than 3571
digits. -/
theorem listing_iff_writable {text : List Char} {file : Option String} {tabWidth : Int}
    {p : Program} (h : ofText text file tabWidth = .ok p) :
    ((∃ lines, p.listing = .ok lines ∧ lines.length = p.items.length) ↔
        ∀ entry ∈ p.items, ∀ s ∈ entry.1.symbols, s.Writable) ∧
      ((∃ entry ∈ p.items, ∃ s ∈ entry.1.symbols, ¬ s.Writable) →
        p.listing = .error .tooManyDigits ∧
          ∃ expanded, Text.expandTabs tabWidth text = .ok expanded ∧ HasLongHex expanded) := by
  have hlisting := listing_rendersIf fun entry he => (wellFormed_of_ofText h entry he).1
  refine ⟨⟨fun hlines => ?_, fun hw => ?_⟩, fun hlong => ?_⟩
  · obtain ⟨lines, hl, -⟩ := hlines
    by_contra hn
    rw [hlisting.error hn] at hl
    cases hl
  · obtain ⟨lines, hl⟩ := hlisting.ok hw
    exact ⟨lines, hl, (forall₂_of_mapM hl).length_eq.symm⟩
  · have hn : ¬ ∀ entry ∈ p.items, AllWritable entry.1.symbols := by
      obtain ⟨entry, hentry, s, hs, hnot⟩ := hlong
      exact fun hall => hnot (hall entry hentry s hs)
    obtain ⟨expanded, hexpand, hall⟩ := allWritable_of_ofText h
    exact ⟨hlisting.error hn, expanded, hexpand, by_contra fun hnot => hn (hall hnot)⟩

/-- A sum in a list of words and in a displacement. -/
theorem listing_iff_writable_word :
    ∃ (p : Program) (lines : List String),
      ofText ".word x+0x10, y - 3\n lw $t0, z+4($sp)".toList none 8 = .ok p ∧
      (∀ entry ∈ p.items, ∀ s ∈ entry.1.symbols, s.Writable) ∧
      p.listing = .ok lines ∧ lines.length = p.items.length ∧
      lines = ["1\t    .word x+16, y-3", "2\t    lw $t0, z+4($sp)"] := by
  obtain ⟨p, hp⟩ : ∃ p : Program, p = { items :=
      [(.directive { name := ".word", args :=
          [.symbol { name := "x", offset := 16 }, .symbol { name := "y", offset := -3 }] }, 1),
       (.instruction { mnemonic := "lw", col := 2, operands :=
          [(.register ⟨8⟩, 5),
           (.memory ⟨29⟩ (some (.symbol { name := "z", offset := 4 })), 10)] }, 2)] } := ⟨_, rfl⟩
  have hread : ofText ".word x+0x10, y - 3\n lw $t0, z+4($sp)".toList none 8 = .ok p :=
    eq_ok_of_toOption (by rw [hp]; decide +kernel)
  have hw : ∀ entry ∈ p.items, ∀ s ∈ entry.1.symbols, s.Writable := by
    rw [hp]
    decide
  obtain ⟨lines, hlines, hlength⟩ := (listing_iff_writable hread).1.2 hw
  refine ⟨p, lines, hread, hw, hlines, hlength, ?_⟩
  have hshown : p.listing = .ok ["1\t    .word x+16, y-3", "2\t    lw $t0, z+4($sp)"] :=
    eq_ok_of_toOption (by rw [hp]; decide +kernel)
  exact Except.ok.inj (hlines.symm.trans hshown)

/-- An offset of 3572 hexadecimal digits is read and cannot be written: it has 4302 in decimal. -/
theorem listing_long_offset :
    ∃ p : Program,
      p.items = [(.directive { name := ".word", args :=
        [.symbol { name := "x", offset := (twoPow (4 * 3572) : Int) - 1 }] }, 1)] ∧
      ofText (".word x+0x".toList ++ List.replicate 3572 'f') none 8 = .ok p ∧
      p.listing = .error .tooManyDigits := by
  obtain ⟨s, hs⟩ : ∃ s : Symbol, s = { name := "x", offset := (twoPow (4 * 3572) : Int) - 1 } :=
    ⟨_, rfl⟩
  have hread : ofText (".word x+0x".toList ++ List.replicate 3572 'f') none 8 =
      .ok { items := [(.directive { name := ".word", args := [.symbol s] }, 1)] } :=
    eq_ok_of_toOption (by rw [hs]; decide +kernel)
  have hlong : ¬ s.Writable := by
    rw [Symbol.Writable, Numeral.length_toDigits_le_iff (by decide), hs]
    decide +kernel
  have hlisting := listing_rendersIf fun entry he => (wellFormed_of_ofText hread entry he).1
  refine ⟨_, by rw [hs], hread, hlisting.error fun hall => ?_⟩
  exact hlong (hall _ List.mem_cons_self s (by simp [Item.symbols, Datum.symbols]))

end Program

end MipsSource
