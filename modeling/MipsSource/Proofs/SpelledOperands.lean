import MipsSource.Proofs.Spelling

/-!
# Reading spelled operands

The kinds of operands are tried in a fixed order, places in memory first, and some of them start
alike: a place in memory with a number or a reference, a number with a fraction with the digits of
an integer. Still every spelling is read as the operand it stands for:

* `Trails`: what follows an operand, spaces and then a comma, a semicolon or the end of the line.
* `Parser.displacement_reads`, `Parser.memory_reads`: the parts of a place in memory.
* `Parser.operand_reads`: every spelling of an operand, the kinds before its own refusing it.
* `Operand.ofText_spelled`: a text that is a spelling of an operand is that operand.
-/

set_option autoImplicit false

namespace MipsSource

open Lexeme (gap)
open Spelling

/-! ## What follows an operand -/

/-- Spaces, and then a comma, a semicolon or the end of the line. -/
def Trails (tail : List Char) : Prop :=
  ∃ n rest, tail = gap n ++ rest ∧ ∀ c ∈ rest.head?, c ∈ [',', ';', '\n']

theorem trails_nil : Trails [] :=
  ⟨0, [], rfl, by simp⟩

section
variable {tail : List Char} (h : Trails tail)
include h

theorem Trails.head : ∀ c ∈ tail.head?, c ∈ [' ', ',', ';', '\n'] := by
  obtain ⟨n, rest, rfl, hrest⟩ := h
  intro c hc
  cases n with
  | zero => exact List.mem_cons_of_mem _ (hrest c hc)
  | succ n =>
    cases hc
    simp

theorem Trails.breaks : Lexeme.Breaks tail := by
  have hall : ∀ c ∈ [' ', ',', ';', '\n'], Lexeme.isInk c = false :=
    Lexeme.forall_mem_of_all (by decide)
  exact fun c hc => hall c (h.head c hc)

theorem Trails.startsWord : Lexeme.startsWord tail = false :=
  Lexeme.startsWord_append h.breaks []

theorem Trails.not_paren : ¬ ['('] <+: tail := by
  intro hp
  obtain ⟨rest, rfl⟩ := hp
  exact absurd (h.head '(' rfl) (by decide)

theorem Trails.symbolOffset? : Lexeme.symbolOffset? tail = none := by
  obtain ⟨n, rest, rfl, hrest⟩ := h
  have hspace : ∀ c ∈ rest.head?, c ≠ ' ' ∧ Numeral.isSign c = false := by
    have hall : ∀ c ∈ [',', ';', '\n'], c ≠ ' ' ∧ Numeral.isSign c = false :=
      Lexeme.forall_mem_of_all (by decide)
    exact fun c hc => hall c (hrest c hc)
  simp only [Lexeme.symbolOffset?, Lexeme.spaces_gap fun c hc => (hspace c hc).1,
    Lexeme.length_gap, Lexeme.drop_gap]
  cases rest with
  | nil => rfl
  | cons c rest => simp [(hspace c rfl).2]

end

/-! ## The first character of a number -/

/-- Can a number start with the character? -/
def isNumberStart (c : Char) : Bool :=
  Numeral.isSign c || c.isDigit

theorem isWordStart_of_numberStart {c : Char} (h : isNumberStart c = true) :
    Lexeme.isWordStart c = false := by
  simp only [isNumberStart, Numeral.isSign, Bool.or_eq_true, decide_eq_true_eq] at h
  rcases h with (rfl | rfl) | h
  · rfl
  · rfl
  · exact Numeral.forall_digit (P := fun c => Lexeme.isWordStart c = false) (by decide) h

theorem number_head {mark word : List Char} (hm : Numeral.IsMark mark)
    (hw : ∃ c rest, word = c :: rest ∧ c.isDigit = true) :
    ∃ c rest, mark ++ word = c :: rest ∧ isNumberStart c = true := by
  obtain ⟨c, rest, rfl, hc⟩ := hw
  rcases hm with rfl | rfl | rfl
  · exact ⟨c, rest, rfl, by simp [isNumberStart, hc]⟩
  · exact ⟨'+', c :: rest, rfl, rfl⟩
  · exact ⟨'-', c :: rest, rfl, rfl⟩

theorem Numeral.IsDecimal.head {word : List Char} (h : Numeral.IsDecimal word) :
    ∃ c rest, word = c :: rest ∧ c.isDigit = true := by
  obtain ⟨c, rest, rfl⟩ := List.exists_cons_of_ne_nil h.1
  exact ⟨c, rest, rfl, h.2 c List.mem_cons_self⟩

namespace Spelling

variable {text : List Char}

theorem IsInteger.head {v : Int} (h : IsInteger text v) :
    ∃ c rest, text = c :: rest ∧ isNumberStart c = true := by
  obtain ⟨hs, hmag⟩ := h
  refine number_head (mem_signs hs).1 ?_
  cases hmag with
  | decimal hd => exact hd.isDecimal.head
  | marked hb hd => exact ⟨'0', _, rfl, rfl⟩

theorem IsFloat.head {x : Binary64} (h : IsFloat text x) :
    ∃ c rest, text = c :: rest ∧ isNumberStart c = true := by
  obtain ⟨hs, hf⟩ := h
  obtain ⟨whole, x, rest, rfl, hw, -⟩ := hf.head
  obtain ⟨c, more, rfl, hc⟩ := hw.head
  exact number_head (mem_signs hs).1 ⟨c, _, rfl, hc⟩

theorem IsSymbol.head {s : Symbol} (h : IsSymbol text s) :
    ∃ c rest, text = c :: rest ∧ Lexeme.isWordStart c = true := by
  cases h with
  | plain hname => exact hname.head
  | shifted a b hname hs hw =>
    obtain ⟨c, rest, hc, hstart⟩ := hname.head
    rw [hc]
    exact ⟨c, _, rfl, hstart⟩

theorem IsRegister.head {r : Register} (h : IsRegister text r) : ∃ rest, text = '$' :: rest := by
  obtain ⟨-, -, -, -⟩ := h
  exact ⟨_, rfl⟩

end Spelling

namespace Parser

variable {text tail : List Char}

/-! ## Places in memory -/

theorem immediate_refuses {c : Char} {l : List Char} (hs : Numeral.isSign c = false)
    (hd : c.isDigit = false) : immediate.Refuses (c :: l) :=
  (placedInteger_refuses hs hd).bind

theorem symbol_refuses {c : Char} {l : List Char} (hw : Lexeme.isWordStart c = false) :
    symbol.Refuses (c :: l) :=
  (identifier_refuses hw).bind

theorem displacement_refuses {c : Char} {l : List Char} (hs : Numeral.isSign c = false)
    (hd : c.isDigit = false) (hw : Lexeme.isWordStart c = false) :
    displacement.Refuses (c :: l) :=
  .orElse (immediate_refuses hs hd).map (.orElse (symbol_refuses hw).map (.noMatch _))

theorem displacement_reads {d : Displacement} (h : IsDisplacement text d)
    (ht : Lexeme.startsWord tail = false) (hoffset : Lexeme.symbolOffset? tail = none) :
    displacement.Reads text tail (· = d) := by
  cases h with
  | immediate hi hv =>
    exact .orElse_left ((immediate_reads hi hv ht).map fun v hv => by rw [hv])
  | symbol hs =>
    obtain ⟨c, rest, rfl, hc⟩ := hs.head
    refine .orElse_right ?_ (.orElse_left ?_)
    · exact (immediate_refuses (Lexeme.not_sign_of_wordStart hc)
        (Lexeme.not_digit_of_wordStart hc)).map
    · exact (symbol_reads hs ht hoffset).map fun v hv => by rw [hv]

/-- Spaces before something else. -/
theorem spaces_reads {n : Nat} (h : ∀ c ∈ tail.head?, c ≠ ' ') :
    spaces.Reads (gap n) tail fun _ => True :=
  (word_reads (gap n) (by rw [Lexeme.spaces_gap h])).mono fun _ _ => trivial

/-- What a place in memory is read as once its displacement is read. -/
theorem memoryBase_reads {r : Register} (h : IsRegister text r) (d : Option Displacement)
    (a b : Nat) (tail : List Char) :
    (do
      let _ ← tag "("
      let _ ← spaces
      let base ← register
      let _ ← spaces
      let _ ← tag ")"
      return .memory base d : Parser Operand).Reads
        ('(' :: (gap a ++ (text ++ (gap b ++ [')'])))) tail (· = .memory r d) := by
  have hbreaks : Lexeme.Breaks (gap b ++ [')'] ++ tail) := by
    intro c hc
    cases b <;> cases hc <;> rfl
  obtain ⟨rest, hhead⟩ := h.head
  refine .bind (.tag "(" _) fun _ _ => ?_
  refine .bind (spaces_reads (by simp [hhead])) fun _ _ => ?_
  refine .bind (register_reads h hbreaks) fun base hbase => ?_
  refine .bind (spaces_reads (by simp)) fun _ _ => ?_
  refine .bind_pure (.tag ")" _) fun _ _ => ?_
  subst hbase
  exact .pure _ tail

/-- What is read as a displacement, or as none, is no place in memory without a parenthesis. -/
theorem memory_refuses {front : List Char} {V : Option Displacement → Prop}
    (h : (optional displacement).Reads front tail V) (ht : ¬ ['('] <+: tail) :
    memory.Refuses (front ++ tail) :=
  .bind_right h fun _ _ => .bind (.tag ht)

theorem memory_refuses_head {c : Char} {l : List Char} (h : displacement.Refuses (c :: l))
    (hc : c ≠ '(') : memory.Refuses (c :: l) :=
  .bind_nil (.optional_none h) fun _ _ => .bind (tag_refuses_head rfl hc)

theorem memory_reads_base {r : Register} (h : IsRegister text r) (a b : Nat) (tail : List Char) :
    memory.Reads ('(' :: (gap a ++ (text ++ (gap b ++ [')'])))) tail (· = .memory r none) := by
  refine .bind_nil (.optional_none (displacement_refuses (by decide) (by decide) (by decide)))
    fun offset hoffset => ?_
  subst hoffset
  exact memoryBase_reads h none a b tail

theorem memory_reads {front : List Char} {d : Displacement} {r : Register}
    (hd : IsDisplacement front d) (h : IsRegister text r) (a b : Nat) (tail : List Char) :
    memory.Reads (front ++ '(' :: (gap a ++ (text ++ (gap b ++ [')'])))) tail
      (· = .memory r (some d)) := by
  refine .bind (.optional_some (displacement_reads hd rfl rfl)) fun offset hoffset => ?_
  obtain ⟨_, rfl, rfl⟩ := hoffset
  exact memoryBase_reads h _ a b tail

/-! ## Operands -/

/-- A number with a fraction is neither an integer nor a reference. -/
theorem displacement_refuses_float {x : Binary64} (h : IsFloat text x) (tail : List Char) :
    displacement.Refuses (text ++ tail) := by
  obtain ⟨c, rest, hc, hstart⟩ := h.head
  obtain ⟨hs, hf⟩ := h
  rename_i mark word negative coefficient exponent
  have himmediate : immediate.Refuses (mark ++ word ++ tail) := by
    refine .bind (.bind_nil (.position _) fun _ _ => .bind (.bind (.scan ?_)))
    rw [hf.integer? (mem_signs hs).1]
    rfl
  have hsymbol : symbol.Refuses (mark ++ word ++ tail) := by
    rw [hc]
    exact symbol_refuses (isWordStart_of_numberStart hstart)
  exact .orElse himmediate.map (.orElse hsymbol.map (.noMatch _))

/-- **Every spelling of an operand is read as that operand.** -/
theorem operand_reads {o : Operand} (h : IsOperand text o) (ht : Trails tail) :
    operand.Reads text tail (· = o) := by
  cases h with
  | register hr =>
    refine .orElse_right ?_ (.orElse_left ?_)
    · obtain ⟨rest, rfl⟩ := hr.head
      exact memory_refuses_head (displacement_refuses (by decide) (by decide) (by decide))
        (by decide)
    · exact (register_reads hr ht.breaks).map fun v hv => by rw [hv]
  | base a b hr => exact .orElse_left (memory_reads_base hr a b tail)
  | memory a b hd hr => exact .orElse_left (memory_reads hd hr a b tail)
  | immediate hi hv =>
    have hread := displacement_reads (.immediate hi hv) ht.startsWord ht.symbolOffset?
    refine .orElse_right ?_ (.orElse_right ?_ (.orElse_right ?_ (.orElse_left ?_)))
    · exact memory_refuses (.optional_some hread) ht.not_paren
    · obtain ⟨c, rest, rfl, hc⟩ := hi.head
      exact (register_refuses (Lexeme.ne_of_test hc (by decide))).map
    · obtain ⟨hs, hmag⟩ := hi
      exact (Refuses.map (.scan (Lexeme.decimal?_numeral (mem_signs hs).1 hmag.isNumeral
        ht.startsWord))).map
    · exact (immediate_reads hi hv ht.startsWord).map fun v hv => by rw [hv]
  | symbol hs =>
    have hread := displacement_reads (.symbol hs) ht.startsWord ht.symbolOffset?
    obtain ⟨c, rest, rfl, hc⟩ := hs.head
    have hsign := Lexeme.not_sign_of_wordStart hc
    have hdigit := Lexeme.not_digit_of_wordStart hc
    refine .orElse_right ?_ (.orElse_right ?_ (.orElse_right ?_ (.orElse_right ?_
      (.orElse_right ?_ (.orElse_left ?_)))))
    · exact memory_refuses (.optional_some hread) ht.not_paren
    · exact (register_refuses (Lexeme.ne_of_test hc (by decide))).map
    · exact (float_refuses hsign hdigit).map
    · exact (immediate_refuses hsign hdigit).map
    · exact (character_refuses (Lexeme.ne_of_test hc (by decide))).map
    · exact (symbol_reads hs ht.startsWord ht.symbolOffset?).map fun v hv => by rw [hv]
  | character hc =>
    refine .orElse_right ?_ (.orElse_right ?_ (.orElse_right ?_ (.orElse_right ?_
      (.orElse_left ?_))))
    · exact memory_refuses_head (displacement_refuses (by decide) (by decide) (by decide))
        (by decide)
    · exact (register_refuses (by decide)).map
    · exact (float_refuses (by decide) (by decide)).map
    · exact (immediate_refuses (by decide) (by decide)).map
    · exact (character_reads hc tail).map fun v hv => by rw [hv]
  | float hf =>
    obtain ⟨c, rest, hc, hstart⟩ := hf.head
    refine .orElse_right ?_ (.orElse_right ?_ (.orElse_left ?_))
    · have hd := displacement_refuses_float hf tail
      rw [hc, List.cons_append] at hd ⊢
      exact memory_refuses_head hd (Lexeme.ne_of_test hstart (by decide))
    · rw [hc]
      exact (register_refuses (Lexeme.ne_of_test hstart (by decide))).map
    · exact (float_reads hf ht.breaks).map fun v hv => by rw [hv]

end Parser

theorem Operand.ofText_spelled {o : Operand} {text : List Char} (h : IsOperand text o) :
    ofText text = .ok o := by
  have hread : Parser.operand.Reads text [] (· = o) := Parser.operand_reads h trails_nil
  have hrest : (Cursor.start text).rest = text ++ [] := (List.append_nil text).symm
  obtain ⟨v, hv, hm⟩ := hread (.start text) rfl hrest
  have hend : ((Cursor.start text).advance text.length).atEnd = true := by
    simp only [Cursor.atEnd, Cursor.advance_rest, Cursor.start, List.drop_length, List.isEmpty_nil]
  subst hv
  unfold ofText
  simp only [hm]
  rw [if_pos hend]

end MipsSource
