import MipsSource.Item.Parser
import MipsSource.Proofs.Ensures
import MipsSource.Proofs.WellFormed

/-!
# What the parsers of the language ensure

Every parser has one specification (`Ensures`), from the blanks and literals up to items:

* `Parser.operand_ensures`, `Parser.directive_ensures`, `Parser.instruction_ensures`.
* `Parser.item_ensures`: an item reads a character at least, is well formed, and knows its columns.
-/

set_option autoImplicit false

namespace MipsSource

namespace Parser

/-! ## Blanks, names and literals -/

theorem word_ensures {lexeme? : List Char → Option (List Char)} {P : List Char → Prop}
    (h : ∀ text w, lexeme? text = some w → P w ∧ w.length ≤ text.length) :
    (word lexeme?).Ensures fun _ v n => P v.toList ∧ n = v.toList.length := by
  refine .scan fun c v n hs => ?_
  obtain ⟨w, hw, he⟩ := Option.map_eq_some_iff.1 hs
  cases he
  obtain ⟨hp, hlen⟩ := h c.rest w hw
  exact ⟨hlen, by simpa using hp, by simp⟩

theorem word_forward {lexeme? : List Char → Option (List Char)}
    (h : ∀ text w, lexeme? text = some w → w.length ≤ text.length) : (word lexeme?).Forward := by
  have hw : (word lexeme?).Ensures fun _ v n => True ∧ n = v.toList.length :=
    word_ensures fun text w hl => ⟨trivial, h text w hl⟩
  exact hw.forward

theorem spaces_forward : spaces.Forward := by
  refine word_forward fun text w h => ?_
  cases h
  exact Lexeme.length_spaces_le text

theorem spaces1_forward : spaces1.Forward := by
  refine word_forward fun text w h => ?_
  split at h
  · cases h
  · cases h
    exact Lexeme.length_spaces_le text

theorem tag_forward (word : String) : (tag word).Forward :=
  (Ensures.tag word).forward

theorem comma_consumes : comma.Consumes := by
  refine Consumes.sequence (fun p hp => ?_) ⟨tag ",", by simp, ?_⟩
  · simp only [List.mem_cons, List.not_mem_nil, or_false] at hp
    rcases hp with rfl | rfl | rfl
    · exact spaces_forward
    · exact tag_forward ","
    · exact spaces_forward
  · refine (Ensures.tag ",").mono fun c v n h => ?_
    rw [h.2.1]
    decide

theorem comma_forward : comma.Forward :=
  comma_consumes.forward

theorem statementEnd_forward : statementEnd.Forward := by
  have hsemi : (optional (tag ";") >>= fun _ => pure () : Parser Unit).Forward :=
    .bind (.optional (tag_forward ";")) (fun _ => .pure ()) fun _ _ _ _ _ _ _ => trivial
  exact .bind spaces_forward (fun _ => hsemi) fun _ _ _ _ _ _ _ => trivial

theorem identifier_ensures : identifier.Ensures fun _ v n => IsName v ∧ 0 < n := by
  have h : identifier.Ensures fun _ v n => Lexeme.IsIdentifier v.toList ∧ n = v.toList.length :=
    word_ensures fun _ _ => Lexeme.identifier?_spec
  refine h.mono ?_
  intro _ v n h
  obtain ⟨hv, rfl⟩ := h
  exact ⟨hv, List.length_pos_iff.2 hv.ne_nil⟩

theorem integer_consumes : integer.Consumes := by
  have hscan : (scan fun text => (Lexeme.integer? text).map fun found =>
      (found, found.length)).Consumes := by
    refine Ensures.scan fun c v n hs => ?_
    obtain ⟨w, hw, he⟩ := Option.map_eq_some_iff.1 hs
    cases he
    obtain ⟨hne, hlen⟩ := Lexeme.integer?_spec hw
    exact ⟨hlen, List.length_pos_iff.2 hne⟩
  refine .bind hscan (fun literal => .ofExcept _) ?_
  intro c literal a v b ha h
  obtain ⟨-, rfl⟩ := h
  exact ha

theorem placedInteger_ensures : placedInteger.Ensures fun c v n => v.1 = c ∧ 0 < n := by
  refine .bind .position (fun start => .bind integer_consumes (fun value => .pure (start, value))
    (S := fun _ v n => v.1 = start ∧ 0 < n) ?_) ?_
  · intro c value a v b ha h
    obtain ⟨rfl, rfl⟩ := h
    exact ⟨rfl, ha⟩
  · intro c start a v b h h'
    obtain ⟨rfl, rfl⟩ := h
    obtain ⟨hs, hb⟩ := h'
    exact ⟨hs, by omega⟩

theorem float_consumes : float.Consumes := by
  refine Ensures.map (Ensures.scan fun c v n hs => ?_) fun _ _ _ h => h
  obtain ⟨hpos, hlen⟩ := Lexeme.decimal?_spec hs
  exact ⟨hlen, hpos⟩

theorem unescape_characterBody {body value : List Char} (hb : Lexeme.IsCharacterBody body)
    (h : Text.unescape body = some value) : value.length = 1 := by
  rcases hb with ⟨letter, hl, rfl⟩ | ⟨c, -, -, -, rfl⟩
  · simp only [Text.unescape, if_pos, hl, if_false] at h
    cases he : Text.escaped? letter with
    | none => rw [he] at h; cases h
    | some v => rw [he] at h; cases h; rfl
  · cases h
    rfl

theorem quoted_ensures {body? : List Char → Option (List Char)} {P : List Char → Prop}
    (h : ∀ text body, body? text = some body → P body ∧ body.length + 2 ≤ text.length) :
    (quoted body?).Ensures fun _ v n =>
      (∃ body, P body ∧ Text.unescape body = some v.toList) ∧ 0 < n := by
  have hscan : (scan fun text => (body? text).map fun body => (body, body.length + 2)).Ensures
      fun _ body n => P body ∧ 0 < n := by
    refine Ensures.scan fun c v n hs => ?_
    obtain ⟨body, hw, he⟩ := Option.map_eq_some_iff.1 hs
    cases he
    obtain ⟨hp, hlen⟩ := h c.rest v hw
    exact ⟨hlen, hp, Nat.succ_pos _⟩
  refine .bind hscan (fun body => .ofOption _) ?_
  intro c body a v b h h'
  obtain ⟨hp, ha⟩ := h
  obtain ⟨hv, rfl⟩ := h'
  obtain ⟨value, hvalue, rfl⟩ := Option.map_eq_some_iff.1 hv
  exact ⟨⟨body, hp, by simpa using hvalue⟩, ha⟩

theorem quoted_length_le {mark : Char} {text body : List Char}
    (h : mark :: body ++ [mark] <+: text) : body.length + 2 ≤ text.length := by
  have hlen := h.length_le
  simp only [List.cons_append, List.length_cons, List.length_append, List.length_nil] at hlen
  omega

theorem string_consumes : string.Consumes := by
  have h : string.Ensures _ := quoted_ensures (P := fun _ => True) fun text body hs =>
    ⟨trivial, quoted_length_le (Lexeme.string?_eq_some_iff.1 hs).2⟩
  exact h.mono fun _ _ _ h => h.2

theorem character_ensures : character.Ensures fun _ v n => v.toList.length = 1 ∧ 0 < n := by
  have h : character.Ensures _ := quoted_ensures fun text body hs =>
    ⟨(Lexeme.character?_eq_some_iff.1 hs).1,
      quoted_length_le (Lexeme.character?_eq_some_iff.1 hs).2⟩
  refine h.mono ?_
  intro c v n h
  obtain ⟨⟨body, hb, hu⟩, hn⟩ := h
  exact ⟨unescape_characterBody hb hu, hn⟩

/-! ## Operands -/

theorem register_consumes : register.Consumes := by
  have hscan : (scan fun text => (Lexeme.registerName? text).map fun name =>
      (name, name.length + 1)).Consumes := by
    refine Ensures.scan fun c v n hs => ?_
    obtain ⟨name, hname, he⟩ := Option.map_eq_some_iff.1 hs
    cases he
    exact ⟨Lexeme.registerName?_spec hname, Nat.succ_pos _⟩
  refine .bind .position (fun start => .bind hscan (R := fun _ _ _ _ => True)
    (S := fun _ _ n => 0 < n) (fun name => ?_) ?_) ?_
  · split
    · exact (Ensures.pure _).forward
    · exact .fail _
  · intro c name a r b ha _
    omega
  · intro c start a r b _ hb
    omega

theorem failRange_ensures {α : Type} {Q : Cursor → α → Nat → Prop} (start : Cursor) (value : Int)
    (what : String) (range : Int × Int) : (failRange start value what range : Parser α).Ensures Q :=
  .fail _

theorem immediate_ensures : immediate.Ensures fun _ v n => IsImmediate v ∧ 0 < n := by
  refine .bind placedInteger_ensures (R := fun _ _ v n => IsImmediate v ∧ n = 0)
    (fun placed => ?_) ?_
  · simp only
    split
    · rename_i hfits
      refine (Ensures.pure _).mono ?_
      intro c v n h
      obtain ⟨rfl, rfl⟩ := h
      exact ⟨(fits_iff_isImmediate _).1 hfits, rfl⟩
    · exact failRange_ensures _ _ _ _
  · intro c placed a v b h h'
    obtain ⟨-, ha⟩ := h
    obtain ⟨hv, rfl⟩ := h'
    exact ⟨hv, ha⟩

theorem symbolOffset_forward : (scan Lexeme.symbolOffset?).Forward :=
  Ensures.scan fun _ _ _ hs => ⟨Lexeme.symbolOffset?_spec hs, trivial⟩

theorem symbol_ensures : symbol.Ensures fun _ s n => IsName s.name ∧ 0 < n := by
  refine .bind identifier_ensures (R := fun name _ s _ => s.name = name) (fun name => ?_) ?_
  · refine .bind (.optional symbolOffset_forward) (R := fun _ _ s _ => s.name = name)
      (fun found => ?_) fun _ _ _ _ _ _ h => h
    split
    · exact (Ensures.pure _).mono fun _ _ _ h => by rw [h.1]
    · refine .bind (.ofExcept _) (fun distance => .pure _) ?_
      intro c distance a s b _ h
      obtain ⟨rfl, -⟩ := h
      rfl
  · intro c name a s b h hs
    obtain ⟨hname, ha⟩ := h
    exact ⟨by rw [hs]; exact hname, by omega⟩

theorem displacement_ensures : displacement.Ensures fun _ d n => d.WellFormed ∧ 0 < n := by
  refine .choice fun p hp => ?_
  simp only [List.mem_cons, List.not_mem_nil, or_false] at hp
  rcases hp with rfl | rfl
  · exact .map immediate_ensures fun _ _ _ h => h
  · exact .map symbol_ensures fun _ _ _ h => h

/-- What stands after the displacement of a place in memory. -/
theorem memoryBase_ensures (d : Option Displacement) :
    (do
      let _ ← tag "("
      let _ ← spaces
      let base ← register
      let _ ← spaces
      let _ ← tag ")"
      return Operand.memory base d : Parser Operand).Ensures fun _ o n =>
        (∃ base, o = .memory base d) ∧ 0 < n := by
  refine .bind (.tag "(") (R := fun _ _ o _ => ∃ base, o = .memory base d) (fun _ => ?_) ?_
  · refine .bind spaces_forward (R := fun _ _ o _ => ∃ base, o = .memory base d) (fun _ => ?_)
      fun _ _ _ _ _ _ h => h
    refine .bind register_consumes (R := fun base _ o _ => o = .memory base d) (fun base => ?_)
      fun _ base _ _ _ _ h => ⟨base, h⟩
    refine .bind spaces_forward (R := fun _ _ o _ => o = .memory base d) (fun _ => ?_)
      fun _ _ _ _ _ _ h => h
    exact .bind (.tag ")") (fun _ => .pure _) fun _ _ _ _ _ _ h => h.1
  · intro c _ a o b h ho
    obtain ⟨-, rfl, -⟩ := h
    have hone : "(".toList.length = 1 := rfl
    exact ⟨ho, by omega⟩

theorem memory_ensures :
    memory.Ensures fun _ o n => (∃ base d, o = .memory base d) ∧ o.WellFormed ∧ 0 < n := by
  refine .bind (.optional displacement_ensures) memoryBase_ensures ?_
  intro c d a o b hd h
  obtain ⟨⟨base, rfl⟩, hb⟩ := h
  refine ⟨⟨base, d, rfl⟩, fun x hx => ?_, by omega⟩
  rcases hd with ⟨y, rfl, hy, -⟩ | ⟨rfl, -⟩
  · cases hx
    exact hy
  · cases hx

theorem operand_ensures : operand.Ensures fun _ o n => o.WellFormed ∧ 0 < n := by
  refine .choice fun p hp => ?_
  simp only [simpleOperands, List.mem_cons, List.not_mem_nil, or_false] at hp
  rcases hp with rfl | rfl | rfl | rfl | rfl | rfl
  · exact memory_ensures.mono fun _ _ _ h => h.2
  · exact .map register_consumes fun _ _ _ h => ⟨trivial, h⟩
  · exact .map float_consumes fun _ _ _ h => ⟨trivial, h⟩
  · exact .map immediate_ensures fun _ _ _ h => h
  · exact .map character_ensures fun _ _ _ h => h
  · exact .map symbol_ensures fun _ _ _ h => h

/-- The operand is what stands at a cursor, in its column. -/
def OperandAt (c : Cursor) (placed : Operand × Int) : Prop :=
  placed.2 = c.col ∧ ∃ after, operand c = .matched placed.1 after

theorem placedOperand_ensures :
    placedOperand.Ensures fun c v n => OperandAt c v ∧ v.1.WellFormed ∧ 0 < n := by
  refine .bind .position (R := fun start c v n =>
    (v.2 = start.col ∧ ∃ after, operand c = .matched v.1 after) ∧ v.1.WellFormed ∧ 0 < n)
    (fun start => ?_) ?_
  · refine .bind operand_ensures.self (fun value => .pure (value, start.col)) ?_
    intro c value a v b h h'
    obtain ⟨⟨hwf, ha⟩, hm⟩ := h
    obtain ⟨rfl, rfl⟩ := h'
    exact ⟨⟨rfl, _, hm⟩, hwf, ha⟩
  · intro c start a v b h h'
    obtain ⟨rfl, rfl⟩ := h
    obtain ⟨hat, hwf, hb⟩ := h'
    exact ⟨hat, hwf, by omega⟩

/-! ## Directives -/

/-- A directive that is found under its name stands in the table. -/
theorem form?_mem {name : String} {form : DirectiveForm} (h : Directive.form? name = some form) :
    (name, form) ∈ Directive.table := by
  obtain ⟨before, after, ht, -⟩ := List.lookup_eq_some_iff.1 h
  rw [ht]
  simp

theorem repetition_forward : repetition.Forward := by
  have hcolon : (sequence [spaces, tag ":", spaces]).Forward := by
    refine Ensures.sequence fun p hp => ?_
    simp only [List.mem_cons, List.not_mem_nil, or_false] at hp
    rcases hp with rfl | rfl | rfl
    · exact spaces_forward
    · exact tag_forward ":"
    · exact spaces_forward
  exact .preceded hcolon placedInteger_ensures fun _ _ _ _ _ _ _ => trivial

theorem integerDatum_ensures (what : String) (bits : Nat) (symbols : Bool) :
    (integerDatum what bits).Ensures fun _ d _ =>
      0 < bits → d.IsElement (Bits.range bits).1 (Bits.range bits).2 symbols := by
  refine .bind placedInteger_ensures
    (R := fun _ _ d _ => 0 < bits → d.IsElement (Bits.range bits).1 (Bits.range bits).2 symbols)
    (fun placed => ?_) fun _ _ _ _ _ _ h => h
  simp only
  split
  · rename_i hfits
    refine .bind (.optional repetition_forward)
      (R := fun _ _ d _ => 0 < bits → d.IsElement (Bits.range bits).1 (Bits.range bits).2 symbols)
      (fun found => ?_) fun _ _ _ _ _ _ h => h
    split
    · refine (Ensures.pure _).mono ?_
      intro c d n h hbits
      obtain ⟨rfl, -⟩ := h
      exact (Bits.fits_iff hbits _).1 hfits
    · split
      · rename_i hcount
        refine (Ensures.pure _).mono ?_
        intro c d n h hbits
        obtain ⟨rfl, -⟩ := h
        exact ⟨(Bits.fits_iff hbits _).1 hfits, hcount⟩
      · exact failRange_ensures _ _ _ _
  · exact failRange_ensures _ _ _ _

theorem element_ensures (what : String) (bits : Nat) (symbols : Bool) :
    (element what bits symbols).Ensures fun _ d _ =>
      0 < bits → d.IsElement (Bits.range bits).1 (Bits.range bits).2 symbols := by
  unfold element
  split
  · rename_i hs
    exact .orElse (integerDatum_ensures what bits symbols)
      (.map symbol_ensures fun _ _ _ h _ => ⟨hs, h.1⟩)
  · exact integerDatum_ensures what bits symbols

theorem number_forward : number.Forward := by
  refine .orElse (float_consumes.forward) ?_
  exact .bind integer_consumes (fun value => .ofExcept _) fun _ _ _ _ _ _ _ => trivial

theorem count_ensures (what : String) :
    (count what).Ensures fun _ v _ => 0 ≤ v ∧ v ≤ 2147483647 := by
  refine .bind placedInteger_ensures (R := fun _ _ v _ => 0 ≤ v ∧ v ≤ 2147483647)
    (fun placed => ?_) fun _ _ _ _ _ _ h => h
  simp only
  split
  · rename_i hv
    refine (Ensures.pure _).mono ?_
    intro c v n h
    obtain ⟨rfl, -⟩ := h
    exact hv
  · exact failRange_ensures _ _ _ _

theorem integersArgs_ensures {name : String} {bits : Nat} {symbols : Bool} (hbits : 0 < bits)
    (hmem : (name, (Bits.range bits).1, (Bits.range bits).2, symbols) ∈ Directive.integerLists) :
    (directiveArgs name (.integers bits symbols)).Ensures fun _ args _ =>
      Directive.WellFormed { name := name, args := args } := by
  refine .preceded spaces1_forward
    (.sepBy1 comma_forward (element_ensures name bits symbols)) ?_
  intro c _ a args b _ h
  obtain ⟨hne, hall⟩ := h
  refine .integers hmem hne fun d hd => ?_
  obtain ⟨_, _, -, h⟩ := hall d hd
  exact h hbits

theorem floatsArgs_ensures {name : String} (hmem : name ∈ [".float", ".double"]) :
    (directiveArgs name .floats).Ensures fun _ args _ =>
      Directive.WellFormed { name := name, args := args } := by
  have hlist : (preceded spaces1 (sepBy1 comma number)).Ensures fun _ values _ => values ≠ [] :=
    .preceded spaces1_forward (.sepBy1 comma_forward number_forward) fun _ _ _ _ _ _ h => h.1
  refine .bind hlist (fun values => .pure _) ?_
  intro c values a args b hne h
  obtain ⟨rfl, -⟩ := h
  exact .floats values hmem hne

theorem stringArgs_ensures {name : String} (hmem : name ∈ [".ascii", ".asciiz"]) :
    (directiveArgs name .string).Ensures fun _ args _ =>
      Directive.WellFormed { name := name, args := args } := by
  refine .bind (.preceded_value spaces1_forward string_consumes.forward) (fun text => .pure _) ?_
  intro c text a args b _ h
  obtain ⟨rfl, -⟩ := h
  exact .string text hmem

theorem countArgs_ensures {name : String} (hmem : name ∈ [".align", ".space"]) :
    (directiveArgs name .count).Ensures fun _ args _ =>
      Directive.WellFormed { name := name, args := args } := by
  refine .bind (.preceded_value spaces1_forward (count_ensures name)) (fun value => .pure _) ?_
  intro c value a args b h h'
  obtain ⟨hlo, hhi⟩ := h
  obtain ⟨rfl, -⟩ := h'
  exact .count hmem hlo hhi

theorem nameArgs_ensures :
    (directiveArgs ".globl" .name).Ensures fun _ args _ =>
      Directive.WellFormed { name := ".globl", args := args } := by
  have hname := identifier_ensures.mono fun _ _ _ h => h.1
  refine .bind (.preceded_value spaces1_forward hname) (fun symbol => .pure _) ?_
  intro c symbol a args b hs h
  obtain ⟨rfl, -⟩ := h
  exact .globl hs

theorem plainArgs_ensures {name : String} (hmem : name ∈ [".text", ".data", ".ktext", ".kdata"]) :
    (directiveArgs name .plain).Ensures fun _ args _ =>
      Directive.WellFormed { name := name, args := args } := by
  refine (Ensures.pure _).mono ?_
  intro c args n h
  obtain ⟨rfl, -⟩ := h
  exact .plain hmem

/-- **The data of a known directive** make a well-formed one. -/
theorem directiveArgs_ensures {name : String} {form : DirectiveForm}
    (h : Directive.form? name = some form) :
    (directiveArgs name form).Ensures fun _ args _ =>
      Directive.WellFormed { name := name, args := args } := by
  have hmem := form?_mem h
  simp only [Directive.table, List.mem_cons, Prod.mk.injEq, List.not_mem_nil, or_false] at hmem
  rcases hmem with ⟨rfl, rfl⟩ | ⟨rfl, rfl⟩ | ⟨rfl, rfl⟩ | ⟨rfl, rfl⟩ | ⟨rfl, rfl⟩ | ⟨rfl, rfl⟩ |
    ⟨rfl, rfl⟩ | ⟨rfl, rfl⟩ | ⟨rfl, rfl⟩ | ⟨rfl, rfl⟩ | ⟨rfl, rfl⟩ | ⟨rfl, rfl⟩ | ⟨rfl, rfl⟩ |
    ⟨rfl, rfl⟩
  iterate 4 exact plainArgs_ensures (by simp)
  iterate 2 exact stringArgs_ensures (by simp)
  iterate 3 exact integersArgs_ensures (by decide) (by decide)
  iterate 2 exact floatsArgs_ensures (by simp)
  iterate 2 exact countArgs_ensures (by simp)
  exact nameArgs_ensures

theorem directive_ensures : directive.Ensures fun _ d n => d.WellFormed ∧ 0 < n := by
  have hname : (word Lexeme.directiveName?).Ensures fun _ v n =>
      v.toList ≠ [] ∧ n = v.toList.length := word_ensures fun _ _ => Lexeme.directiveName?_spec
  refine .bind hname (R := fun _ _ d _ => d.WellFormed) (fun name => ?_) ?_
  · refine .bind_of (.ofOption _) (R := fun _ _ d _ => d.WellFormed) ?_ fun _ _ _ _ _ _ h => h
    intro _ form _ h
    obtain ⟨hform, -⟩ := h
    refine .bind (directiveArgs_ensures hform)
      (R := fun args _ d _ => d = { name := name, args := args }) (fun args => ?_) ?_
    · exact .bind statementEnd_forward (fun _ => .pure _) fun _ _ _ _ _ _ h => h.1
    · intro c args a d b hwf h
      subst h
      exact hwf
  · intro c name a d b h hd
    obtain ⟨hne, rfl⟩ := h
    have hpos := List.length_pos_iff.2 hne
    exact ⟨hd, by omega⟩

/-! ## Items -/

theorem label_ensures : label.Ensures fun _ name n => IsName name ∧ 0 < n := by
  refine Ensures.scan fun c v n hs => ?_
  obtain ⟨⟨name, m⟩, hname, he⟩ := Option.map_eq_some_iff.1 hs
  cases he
  obtain ⟨hid, hpos, hlen⟩ := Lexeme.label?_spec hname
  exact ⟨hlen, by simpa [IsName] using hid, hpos⟩

/-- The columns of an instruction that is read from a cursor on, over `n` characters: its own, and
those of its operands, each of which stands at a place inside. -/
def ColumnsAt (c : Cursor) (n : Nat) (i : Instruction) : Prop :=
  i.col = c.col ∧ ∀ placed ∈ i.operands, ∃ k, k < n ∧ OperandAt (c.advance k) placed

/-- The operands after a mnemonic, and what is known of each. -/
theorem operandList_ensures :
    (withDefault (preceded spaces1 (sepBy1 comma placedOperand)) []).Ensures fun c placeds n =>
      ∀ placed ∈ placeds, (∃ k, k < n ∧ OperandAt (c.advance k) placed) ∧ placed.1.WellFormed := by
  refine (Ensures.withDefault [] (.preceded spaces1_forward
    (.sepBy1 comma_forward placedOperand_ensures) (S := fun c placeds n =>
      ∀ placed ∈ placeds, (∃ k, k < n ∧ OperandAt (c.advance k) placed) ∧ placed.1.WellFormed)
    ?_)).mono ?_
  · intro c _ a placeds b _ h placed hp
    obtain ⟨-, hall⟩ := h
    obtain ⟨k, m, hkm, hat, hwf, hm⟩ := hall placed hp
    rw [Cursor.advance_advance] at hat
    exact ⟨⟨a + k, by omega, hat⟩, hwf⟩
  · rintro c placeds n (h | ⟨rfl, -⟩)
    · exact h
    · simp

theorem instruction_ensures :
    instruction.Ensures fun c i n => (Item.instruction i).WellFormed ∧ ColumnsAt c n i ∧ 0 < n := by
  refine .bind .position (R := fun start c i n => (Item.instruction i).WellFormed ∧
    (i.col = start.col ∧ ∀ placed ∈ i.operands, ∃ k, k < n ∧ OperandAt (c.advance k) placed) ∧
    0 < n) (fun start => ?_) ?_
  · refine .bind identifier_ensures (R := fun mnemonic c i n => i.mnemonic = mnemonic ∧
      i.col = start.col ∧ ∀ placed ∈ i.operands,
        (∃ k, k < n ∧ OperandAt (c.advance k) placed) ∧ placed.1.WellFormed) (fun mnemonic => ?_) ?_
    · refine .bind operandList_ensures (R := fun operands _ i _ => i =
        { mnemonic := mnemonic, operands := operands, col := start.col }) (fun operands => ?_) ?_
      · exact .bind statementEnd_forward (fun _ => .pure _) fun _ _ _ _ _ _ h => h.1
      · intro c operands a i b hall h
        subst h
        refine ⟨rfl, rfl, fun placed hp => ?_⟩
        obtain ⟨⟨k, hk, hat⟩, hwf⟩ := hall placed hp
        exact ⟨⟨k, by omega, hat⟩, hwf⟩
    · intro c mnemonic a i b h h'
      obtain ⟨hname, ha⟩ := h
      obtain ⟨rfl, hcol, hall⟩ := h'
      refine ⟨⟨hname, fun placed hp => (hall placed hp).2⟩, ⟨hcol, fun placed hp => ?_⟩, by omega⟩
      obtain ⟨k, hk, hat⟩ := (hall placed hp).1
      rw [Cursor.advance_advance] at hat
      exact ⟨a + k, by omega, hat⟩
  · intro c start a i b h h'
    obtain ⟨rfl, rfl⟩ := h
    obtain ⟨hwf, hcols, hb⟩ := h'
    rw [Nat.zero_add]
    exact ⟨hwf, hcols, hb⟩

/-- **Every item** is well formed, reads a character at least, and knows its columns. -/
theorem item_ensures : item.Ensures fun c i n =>
    i.WellFormed ∧ (∀ ins, i = .instruction ins → ColumnsAt c n ins) ∧ 0 < n := by
  refine .choice fun p hp => ?_
  simp only [List.mem_cons, List.not_mem_nil, or_false] at hp
  rcases hp with rfl | rfl | rfl
  · refine .map label_ensures fun c name n h => ⟨h.1, ?_, h.2⟩
    rintro ins ⟨⟩
  · refine .map directive_ensures fun c d n h => ⟨h.1, ?_, h.2⟩
    rintro ins ⟨⟩
  · refine .map instruction_ensures fun c i n h => ⟨h.1, ?_, h.2.2⟩
    rintro ins ⟨⟩
    exact h.2.1

end Parser

end MipsSource
