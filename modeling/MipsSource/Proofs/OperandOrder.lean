import Mathlib.Data.List.Forall2
import MipsSource.Lexeme.Kind
import MipsSource.Proofs.Literals

/-!
# The order of the kinds of operands

Places in memory have to be tried first, since they may start with a number or a reference. The
other kinds exclude each other: each of them needs a lexeme of its own, and no text starts with two
of these lexemes. So their order does not matter, for errors neither.

* `Parser.Needs`: a parser can only match or fail where a lexeme stands.
* `Lexeme.operandLexemes_exclusive`: at most one of the five lexemes stands at the start of a text.
* `Parser.choice_perm`: the choice between parsers that exclude each other.
* `Parser.operand_eq_of_perm`: an operand by any order of the kinds after places in memory.
-/

set_option autoImplicit false

namespace MipsSource

/-! ## Lexemes that exclude each other -/

namespace Lexeme

/-- The lexemes that the operands other than places in memory start with. -/
def operandLexemes : List LexemeKind :=
  [.register, .decimal, .integer, .character, .identifier]

/-- Lexemes of the kind only start with characters that `p` takes. -/
def OpensWith (k : LexemeKind) (p : Char → Bool) : Prop :=
  ∀ text, (∀ c ∈ text.head?, p c = false) → k.match? text = none

theorem OpensWith.of_head {k : LexemeKind} {p : Char → Bool} (hnil : k.match? [] = none)
    (hcons : ∀ c rest, p c = false → k.match? (c :: rest) = none) : OpensWith k p
  | [], _ => hnil
  | c :: rest, h => hcons c rest (h c rfl)

/-- No text starts with lexemes of two kinds that need different first characters. -/
theorem OpensWith.exclusive {k k' : LexemeKind} {p q : Char → Bool} (hk : OpensWith k p)
    (hk' : OpensWith k' q) (hpq : ∀ c, p c = true → q c = false) (text : List Char) :
    k.match? text = none ∨ k'.match? text = none := by
  by_cases h : ∀ c ∈ text.head?, p c = false
  · exact .inl (hk text h)
  · refine .inr (hk' text fun c hc => hpq c ?_)
    simp only [not_forall, Bool.not_eq_false] at h
    obtain ⟨d, hd, hp⟩ := h
    rwa [Option.mem_unique hc hd]

theorem register_opensWith : OpensWith .register (· = '$') :=
  .of_head rfl fun c rest hc => by
    rw [LexemeKind.match?, registerName?_head (of_decide_eq_false hc), Option.map_none]

theorem character_opensWith : OpensWith .character (· = '\'') :=
  .of_head rfl fun c rest hc => by
    rw [LexemeKind.match?, character?_head (of_decide_eq_false hc), Option.map_none]

theorem identifier_opensWith : OpensWith .identifier isWordStart :=
  .of_head rfl fun c rest hc => by
    rw [LexemeKind.match?, identifier?_head hc, Option.map_none]

theorem integer_opensWith : OpensWith .integer isNumberStart :=
  .of_head rfl fun c rest hc => by
    obtain ⟨hs, hd⟩ := Bool.or_eq_false_iff.1 hc
    rw [LexemeKind.match?, integer?_head hs hd, Option.map_none]

theorem decimal_opensWith : OpensWith .decimal isNumberStart :=
  .of_head rfl fun c rest hc => by
    obtain ⟨hs, hd⟩ := Bool.or_eq_false_iff.1 hc
    rw [LexemeKind.match?, decimal?_head hs hd, Option.map_none]

/-- **Integers and numbers with a fraction exclude each other**, though they start alike: after the
digits of an integer comes no point and no exponent. -/
theorem decimal_or_integer (text : List Char) :
    LexemeKind.decimal.match? text = none ∨ LexemeKind.integer.match? text = none := by
  by_cases hw : isNumeral (wordAhead text) = true
  · refine .inl ?_
    obtain ⟨tail, htext, htail⟩ := wordAhead_split text
    have hnone := decimal?_numeral (Numeral.isMark_sign text) hw htail
    rw [← htext] at hnone
    rw [LexemeKind.match?, hnone, Option.map_none]
  · refine .inr ?_
    rw [LexemeKind.match?, integer?_eq, if_neg hw, Option.map_none]

/-- **At most one of the lexemes of operands** stands at the start of a text. -/
theorem operandLexemes_exclusive (text : List Char) :
    operandLexemes.Pairwise fun k k' => k.match? text = none ∨ k'.match? text = none := by
  have hdollar : ∀ {q : Char → Bool}, q '$' = false → ∀ c, decide (c = '$') = true → q c = false :=
    fun hq c hc => of_decide_eq_true hc ▸ hq
  have hquote : ∀ c, isNumberStart c = true → decide (c = '\'') = false :=
    fun c hc => decide_eq_false (ne_of_test hc (by decide))
  have hword : ∀ c, isNumberStart c = true → isWordStart c = false :=
    fun c => isWordStart_of_numberStart
  have hmark : ∀ c, decide (c = '\'') = true → isWordStart c = false :=
    fun c hc => of_decide_eq_true hc ▸ by decide
  simp only [operandLexemes, List.pairwise_cons, List.mem_cons, List.not_mem_nil, or_false,
    forall_eq_or_imp, forall_eq, false_imp_iff, implies_true, List.Pairwise.nil, and_true]
  -- the first character tells the kinds apart, but for the two kinds of numbers
  refine ⟨⟨?_, ?_, ?_, ?_⟩, ⟨?_, ?_, ?_⟩, ⟨?_, ?_⟩, ?_⟩
  · exact register_opensWith.exclusive decimal_opensWith (hdollar (by decide)) text
  · exact register_opensWith.exclusive integer_opensWith (hdollar (by decide)) text
  · exact register_opensWith.exclusive character_opensWith (hdollar (by decide)) text
  · exact register_opensWith.exclusive identifier_opensWith (hdollar (by decide)) text
  · exact decimal_or_integer text
  · exact decimal_opensWith.exclusive character_opensWith hquote text
  · exact decimal_opensWith.exclusive identifier_opensWith hword text
  · exact integer_opensWith.exclusive character_opensWith hquote text
  · exact integer_opensWith.exclusive identifier_opensWith hword text
  · exact character_opensWith.exclusive identifier_opensWith hmark text

end Lexeme

/-! ## Parsers that exclude each other -/

namespace Parser

variable {α β : Type} {k : LexemeKind}

/-- The parser does not match, nor fail, where no lexeme of the kind stands. -/
def Needs (p : Parser α) (k : LexemeKind) : Prop :=
  ∀ c : Cursor, k.match? c.rest = none → p c = .unmatched

theorem Needs.scan {scanner : List Char → Option (α × Nat)}
    (h : ∀ text, k.match? text = none → scanner text = none) : (scan scanner).Needs k := by
  intro c hc
  rw [Parser.scan, h _ hc]

theorem Needs.bind {p : Parser α} {next : α → Parser β} (hp : p.Needs k) : (p >>= next).Needs k :=
  fun c hc => bind_unmatched (hp c hc)

theorem Needs.map {p : Parser α} (f : α → β) (hp : p.Needs k) : (f <$> p).Needs k :=
  fun c hc => map_unmatched (hp c hc)

theorem Needs.position_bind {next : Cursor → Parser β} (h : ∀ start, (next start).Needs k) :
    (position >>= next).Needs k :=
  fun c hc => h c c hc

theorem register_needs : register.Needs .register :=
  .position_bind fun _ => .bind (.scan fun text h => by
    rw [Option.map_eq_none_iff.1 h, Option.map_none])

theorem float_needs : float.Needs .decimal :=
  .map _ (.scan fun _ h => Option.map_eq_none_iff.1 h)

theorem immediate_needs : immediate.Needs .integer := by
  have hinteger : integer.Needs .integer :=
    .bind (.scan fun text h => by rw [Option.map_eq_none_iff.1 h, Option.map_none])
  exact .bind (.position_bind fun _ => hinteger.bind)

theorem character_needs : character.Needs .character :=
  .bind (.scan fun text h => by rw [Option.map_eq_none_iff.1 h, Option.map_none])

theorem symbol_needs : symbol.Needs .identifier := by
  have hidentifier : identifier.Needs .identifier := by
    rw [identifier, word]
    exact .scan fun text h => by rw [Option.map_eq_none_iff.1 h, Option.map_none]
  exact hidentifier.bind

/-- At most one of the parsers matches or fails at a place. -/
def Exclusive (ps : List (Parser α)) (c : Cursor) : Prop :=
  ps.Pairwise fun p q => p c = .unmatched ∨ q c = .unmatched

theorem Exclusive.of_needs {ps : List (Parser α)} {kinds : List LexemeKind} {c : Cursor}
    (h : List.Forall₂ Needs ps kinds)
    (hk : kinds.Pairwise fun k k' => k.match? c.rest = none ∨ k'.match? c.rest = none) :
    Exclusive ps c := by
  induction h with
  | nil => exact .nil
  | @cons p k ps kinds hp hps ih =>
    rw [List.pairwise_cons] at hk
    refine List.pairwise_cons.2 ⟨fun q hq => ?_, ih hk.2⟩
    obtain ⟨i, hi, rfl⟩ := List.mem_iff_getElem.1 hq
    have hi' : i < kinds.length := hps.length_eq ▸ hi
    exact (hk.1 kinds[i] (List.getElem_mem hi')).imp (hp c) (hps.get hi hi' c)

theorem Exclusive.perm {ps qs : List (Parser α)} {c : Cursor} (h : ps.Perm qs)
    (hps : Exclusive ps c) : Exclusive qs c :=
  (h.pairwise_iff Or.symm).1 hps

/-- **Parsers that exclude each other can be tried in any order.** -/
theorem choice_perm {ps qs : List (Parser α)} {c : Cursor} (h : ps.Perm qs)
    (hps : Exclusive ps c) : choice ps c = choice qs c := by
  induction h with
  | nil => rfl
  | @cons p ps qs _ ih => rw [choice, choice, orElse, orElse, ih (List.pairwise_cons.1 hps).2]
  | @swap p q ps =>
    have hpq : q c = .unmatched ∨ p c = .unmatched :=
      (List.pairwise_cons.1 hps).1 p List.mem_cons_self
    simp only [choice, orElse]
    rcases hpq with h | h <;> rw [h]
  | trans hfirst _ ih ih' => rw [ih hps, ih' (hps.perm hfirst)]

/-! ## Operands -/

theorem simpleOperands_exclusive (c : Cursor) : Exclusive simpleOperands c := by
  refine .of_needs ?_ (Lexeme.operandLexemes_exclusive c.rest)
  exact .cons (register_needs.map _) (.cons (float_needs.map _) (.cons (immediate_needs.map _)
    (.cons (character_needs.map _) (.cons (symbol_needs.map _) .nil))))

/-- **Only the priority of places in memory matters.** At most one of the other kinds of operands
matches or fails at a place, and tried after a place in memory in any order they answer the same. -/
theorem operand_eq_of_perm (c : Cursor) :
    Exclusive simpleOperands c ∧
      ∀ kinds, kinds.Perm simpleOperands → choice (memory :: kinds) c = operand c := by
  refine ⟨simpleOperands_exclusive c, fun kinds h => ?_⟩
  have hrest := choice_perm h.symm (simpleOperands_exclusive c)
  rw [operand, choice, choice, orElse, orElse, hrest]

/-- In reverse order: a number with an exponent, and an integer out of its range. -/
theorem operand_eq_of_perm_reverse :
    simpleOperands.reverse.Perm simpleOperands ∧
      choice (memory :: simpleOperands.reverse) (.start "-1e+5,".toList) =
        operand (.start "-1e+5,".toList) ∧
      choice (memory :: simpleOperands.reverse) (.start "-2147483649 x".toList) =
        .failed (.ofCauseAt (.valueRange (-2147483649) "un inmediato de 32 bits" (-2147483648)
          4294967295) 1 1) := by
  have hperm : simpleOperands.reverse.Perm simpleOperands := List.reverse_perm _
  refine ⟨hperm, (operand_eq_of_perm _).2 _ hperm, ?_⟩
  rw [(operand_eq_of_perm _).2 _ hperm]
  decide +kernel

/-- Tried before a place in memory, its displacement is taken for the whole operand. -/
example : operand (.start "4($sp)".toList) ≠
    choice (simpleOperands ++ [memory]) (.start "4($sp)".toList) := by
  decide +kernel

end Parser

end MipsSource
