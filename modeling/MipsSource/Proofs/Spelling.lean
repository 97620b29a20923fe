import MipsSource.Proofs.LiteralText

/-!
# Spellings

What may be written for an operand, as relations between texts and values: the digits and bases of
numbers, the names of registers, references with their offsets, places in memory, characters and
numbers with a fraction. The relations say what a text stands for without a scanner; they leave out
only what follows, and the readers need little of that:

* `Parser.integer_reads`, `Parser.float_reads`, `Parser.register_reads`, `Parser.symbol_reads`,
  `Parser.character_reads`: a spelling is read as its value where no word goes on after it.
-/

set_option autoImplicit false

namespace MipsSource

namespace Spelling

open Lexeme (gap)

/-! ## Numbers -/

/-- The digits with their values. -/
def digits : List (Char × Nat) :=
  [('0', 0), ('1', 1), ('2', 2), ('3', 3), ('4', 4), ('5', 5), ('6', 6), ('7', 7), ('8', 8),
   ('9', 9), ('a', 10), ('b', 11), ('c', 12), ('d', 13), ('e', 14), ('f', 15), ('A', 10),
   ('B', 11), ('C', 12), ('D', 13), ('E', 14), ('F', 15)]

/-- The signs, and whether they make a number negative. -/
def signs : List (List Char × Bool) :=
  [([], false), (['+'], false), (['-'], true)]

/-- Digits of a base, the most significant first, and their value. -/
inductive IsDigits (base : Nat) : List Char → Nat → Prop
  | single {c : Char} {d : Nat} : (c, d) ∈ digits → d < base → IsDigits base [c] d
  | snoc {word : List Char} {n : Nat} {c : Char} {d : Nat} :
      IsDigits base word n → (c, d) ∈ digits → d < base → IsDigits base (word ++ [c]) (n * base + d)

/-- A number without a sign, of which `bases` lists the letters that mark a base. Decimal digits are
limited in number, and zeros may lead. -/
inductive IsMagnitude (bases : List (Char × Nat)) : List Char → Nat → Prop
  | decimal {word : List Char} {n : Nat} :
      IsDigits 10 word n → word.length ≤ Numeral.maxDigits → IsMagnitude bases word n
  | marked {letter : Char} {base : Nat} {word : List Char} {n : Nat} :
      (letter, base) ∈ bases → IsDigits base word n → IsMagnitude bases ('0' :: letter :: word) n

/-- An integer: a sign, which may be missing, and a number in decimal, hexadecimal, octal or
binary. -/
inductive IsInteger : List Char → Int → Prop
  | intro {mark word : List Char} {negative : Bool} {n : Nat} :
      (mark, negative) ∈ signs → IsMagnitude Numeral.baseMarks word n →
      IsInteger (mark ++ word) (Numeral.signed negative n)

/-- An exponent of ten. -/
inductive IsExponent : List Char → Int → Prop
  | intro {letter : Char} {mark word : List Char} {negative : Bool} {n : Nat} :
      letter ∈ ['e', 'E'] → (mark, negative) ∈ signs → IsDigits 10 word n →
      IsExponent (letter :: (mark ++ word)) (Numeral.signed negative n)

/-- A number with a fraction, an exponent or both: its digits without the point, and the power of
ten that they are multiplied by. -/
inductive IsFraction : List Char → Nat → Int → Prop
  | fraction {whole part : List Char} {a b : Nat} :
      IsDigits 10 whole a → IsDigits 10 part b →
      IsFraction (whole ++ '.' :: part) (a * tenPow part.length + b) (-part.length)
  | both {whole part tail : List Char} {a b : Nat} {e : Int} :
      IsDigits 10 whole a → IsDigits 10 part b → IsExponent tail e →
      IsFraction (whole ++ '.' :: (part ++ tail)) (a * tenPow part.length + b) (e - part.length)
  | exponent {whole tail : List Char} {a : Nat} {e : Int} :
      IsDigits 10 whole a → IsExponent tail e → IsFraction (whole ++ tail) a e

/-- A number in double precision, the nearest to the decimal number that is written. -/
inductive IsFloat : List Char → Binary64 → Prop
  | intro {mark word : List Char} {negative : Bool} {coefficient : Nat} {exponent : Int} :
      (mark, negative) ∈ signs → IsFraction word coefficient exponent →
      IsFloat (mark ++ word)
        (.ofDecimal { negative := negative, coefficient := coefficient, exponent := exponent })

/-! ## Operands -/

/-- A register: a dollar sign, and letters, digits and underscores after an optional sign that
resolve to it. -/
inductive IsRegister : List Char → Register → Prop
  | intro {mark word : List Char} {negative : Bool} {r : Register} :
      (mark, negative) ∈ signs → word ≠ [] → (∀ c ∈ word, Lexeme.isNameChar c = true) →
      Register.resolve (mark ++ word) = .ok r → IsRegister ('$' :: (mark ++ word)) r

/-- A reference to a label, with an optional offset in decimal or hexadecimal and any spaces around
the sign. -/
inductive IsSymbol : List Char → Symbol → Prop
  | plain {name : String} : IsName name → IsSymbol name.toList { name := name }
  | shifted {name : String} {mark : Char} {negative : Bool} {word : List Char} {n : Nat}
      (a b : Nat) :
      IsName name → ([mark], negative) ∈ signs → IsMagnitude [('x', 16), ('X', 16)] word n →
      IsSymbol (name.toList ++ (gap a ++ mark :: (gap b ++ word)))
        { name := name, offset := Numeral.signed negative n }

/-- What stands before the parenthesis of a place in memory. -/
inductive IsDisplacement : List Char → Displacement → Prop
  | immediate {text : List Char} {value : Int} :
      IsInteger text value → IsImmediate value → IsDisplacement text (.immediate value)
  | symbol {text : List Char} {s : Symbol} : IsSymbol text s → IsDisplacement text (.symbol s)

/-- The letters after a backslash, with the characters that they stand for. -/
def escapes : List (Char × Char) :=
  [('n', '\n'), ('t', '\t'), ('r', '\r'), ('0', '\x00'), ('\\', '\\'), ('"', '"'), ('\'', '\'')]

/-- What stands between the marks of a character literal. -/
inductive IsCharacter : List Char → Char → Prop
  | raw {c : Char} : c ∉ ['\\', '\'', '\n'] → IsCharacter [c] c
  | escape {letter c : Char} : (letter, c) ∈ escapes → IsCharacter ['\\', letter] c

/-- **The spellings of an operand.** -/
inductive IsOperand : List Char → Operand → Prop
  | register {text : List Char} {r : Register} : IsRegister text r → IsOperand text (.register r)
  | base {text : List Char} {r : Register} (a b : Nat) :
      IsRegister text r →
      IsOperand ('(' :: (gap a ++ (text ++ (gap b ++ [')'])))) (.memory r none)
  | memory {front text : List Char} {d : Displacement} {r : Register} (a b : Nat) :
      IsDisplacement front d → IsRegister text r →
      IsOperand (front ++ '(' :: (gap a ++ (text ++ (gap b ++ [')'])))) (.memory r (some d))
  | immediate {text : List Char} {value : Int} :
      IsInteger text value → IsImmediate value → IsOperand text (.immediate value)
  | symbol {text : List Char} {s : Symbol} : IsSymbol text s → IsOperand text (.symbol s)
  | character {body : List Char} {c : Char} :
      IsCharacter body c →
      IsOperand ('\'' :: (body ++ ['\''])) (.character (String.ofList [c]))
  | float {text : List Char} {x : Binary64} : IsFloat text x → IsOperand text (.float x)

/-! ## Digits -/

variable {base n : Nat} {word tail : List Char}

theorem digitBelow?_of_mem {c : Char} {d : Nat} (h : (c, d) ∈ digits) (hd : d < base) :
    Numeral.digitBelow? base c = some d := by
  have hall : ∀ p ∈ digits, Numeral.digit? p.1 = some p.2 := by decide
  rw [Numeral.digitBelow?, hall _ h]
  simp [hd]

/-- The value of digits is their positional value. -/
theorem IsDigits.mapM (h : IsDigits base word n) :
    ∃ values, word.mapM (Numeral.digitBelow? base) = some values ∧
      values.length = word.length ∧ Numeral.ofDigits base values = n := by
  induction h with
  | @single c d hc hd =>
    refine ⟨[d], ?_, rfl, by simp [Numeral.ofDigits]⟩
    simp [digitBelow?_of_mem hc hd]
  | @snoc word n c d _ hc hd ih =>
    obtain ⟨values, hvalues, hlen, hn⟩ := ih
    refine ⟨values ++ [d], ?_, by simp [hlen], ?_⟩
    · simp [List.mapM_append, hvalues, digitBelow?_of_mem hc hd]
    · rw [Numeral.ofDigits_append, hn]
      simp [Numeral.ofDigits]

theorem IsDigits.isDigits (h : IsDigits base word n) : Lexeme.isDigits base word = true := by
  rw [Numeral.isDigits_iff]
  induction h with
  | single hc hd => simp [digitBelow?_of_mem hc hd]
  | snoc _ hc hd ih =>
    refine ⟨by simp, fun x hx => ?_⟩
    rcases List.mem_append.1 hx with hx | hx
    · exact ih.2 x hx
    · rw [List.mem_singleton.1 hx, digitBelow?_of_mem hc hd]
      rfl

theorem IsDigits.isDecimal (h : IsDigits 10 word n) : Numeral.IsDecimal word :=
  Numeral.isDecimal_of_isDigits h.isDigits

theorem IsDigits.readDigits (h : IsDigits base word n)
    (hlen : base = 10 → word.length ≤ Numeral.maxDigits) :
    Numeral.readDigits base word = .ok n := by
  obtain ⟨values, hvalues, hlength, hn⟩ := h.mapM
  have hword := Numeral.ungroup_word (Numeral.isDigits_iff.1 h.isDigits).1
    (Numeral.no_underscore_of_isDigits h.isDigits)
  have hshort : ¬ (base = 10 ∧ Numeral.maxDigits < values.length) := by
    rw [hlength]
    intro hlong
    have := hlen hlong.1
    omega
  rw [Numeral.readDigits, hword, Option.bind_some, hvalues]
  simp only [hshort, if_false, hn]

theorem IsDigits.decimalValue (h : IsDigits 10 word n) : Lexeme.decimalValue word = n := by
  obtain ⟨values, hvalues, -, hn⟩ := h.mapM
  rw [Numeral.mapM_digitBelow? h.isDecimal.2] at hvalues
  cases hvalues
  exact hn

/-- A digit of a base up to 16 is one of those listed. -/
theorem mem_digits {c : Char} {d : Nat} (h : Numeral.digitBelow? base c = some d)
    (hbase : base ≤ 16) : (c, d) ∈ digits ∧ d < base := by
  have hall : ∀ n : Fin 128, ∀ d ∈ Numeral.digit? (Char.ofNat n.val), d < 16 →
      (Char.ofNat n.val, d) ∈ digits := by decide +kernel
  have hascii : Text.IsAscii c := by
    have hbounds := Lexeme.nameChar_bounds
      (Numeral.isNameChar_of_digitBelow? (Option.isSome_iff_exists.2 ⟨d, h⟩))
    unfold Text.IsAscii
    omega
  obtain ⟨hdigit, hlt⟩ := Option.filter_eq_some_iff.1 h
  have hd : d < base := by simpa using hlt
  exact ⟨Text.forall_ascii (P := fun c => ∀ d ∈ Numeral.digit? c, d < 16 → (c, d) ∈ digits) hall
    hascii d hdigit (Nat.lt_of_lt_of_le hd hbase), hd⟩

/-- Every word of digits has a value; the induction takes the digits from the last one on. -/
theorem exists_isDigits (h : Lexeme.isDigits base word = true) (hbase : base ≤ 16) :
    ∃ n, IsDigits base word n := by
  have hreverse : ∀ rev : List Char, rev ≠ [] →
      (∀ c ∈ rev, (Numeral.digitBelow? base c).isSome = true) →
        ∃ n, IsDigits base rev.reverse n := by
    intro rev
    induction rev with
    | nil => exact fun hne => absurd rfl hne
    | cons c rest ih =>
      intro _ hall
      obtain ⟨d, hd⟩ := Option.isSome_iff_exists.1 (hall c List.mem_cons_self)
      obtain ⟨hmem, hlt⟩ := mem_digits hd hbase
      rw [List.reverse_cons]
      by_cases hrest : rest = []
      · subst hrest
        exact ⟨d, .single hmem hlt⟩
      · obtain ⟨n, hn⟩ := ih hrest fun x hx => hall x (List.mem_cons_of_mem c hx)
        exact ⟨_, .snoc hn hmem hlt⟩
  obtain ⟨hne, hall⟩ := Numeral.isDigits_iff.1 h
  have hword := hreverse word.reverse (by simpa using hne) fun c hc =>
    hall c (List.mem_reverse.1 hc)
  rwa [List.reverse_reverse] at hword

theorem mem_signs {mark : List Char} {negative : Bool} (h : (mark, negative) ∈ signs) :
    Numeral.IsMark mark ∧ negative = decide (mark = ['-']) := by
  simp only [signs, List.mem_cons, Prod.mk.injEq, List.not_mem_nil, or_false] at h
  rcases h with ⟨rfl, rfl⟩ | ⟨rfl, rfl⟩ | ⟨rfl, rfl⟩
  · exact ⟨.inl rfl, rfl⟩
  · exact ⟨.inr (.inl rfl), rfl⟩
  · exact ⟨.inr (.inr rfl), rfl⟩

theorem mark_mem_signs {mark : List Char} (h : Numeral.IsMark mark) :
    (mark, decide (mark = ['-'])) ∈ signs := by
  rcases h with rfl | rfl | rfl <;> decide

theorem minus_mem_signs (negative : Bool) : (Numeral.minus negative, negative) ∈ signs := by
  cases negative <;> decide

/-! ## Integers -/

theorem IsMagnitude.isNumeral (h : IsMagnitude Numeral.baseMarks word n) :
    Lexeme.isNumeral word = true := by
  cases h with
  | decimal hd => exact Numeral.isNumeral_of_decimal hd.isDecimal
  | marked hb hd =>
    exact Numeral.isNumeral_of_marked (Numeral.markedBase?_eq_some_iff.2 hb) hd.isDigits

theorem IsMagnitude.isOffset (h : IsMagnitude [('x', 16), ('X', 16)] word n) :
    Lexeme.isOffset word = true := by
  cases h with
  | decimal hd => rw [Lexeme.isOffset, hd.isDigits, Bool.true_or]
  | @marked letter base digits _ hb hd =>
    have hmark : Numeral.markedBase? letter = some base ∧ base = 16 := by
      simp only [List.mem_cons, Prod.mk.injEq, List.not_mem_nil, or_false] at hb
      rcases hb with ⟨rfl, rfl⟩ | ⟨rfl, rfl⟩ <;> exact ⟨rfl, rfl⟩
    simp [Lexeme.isOffset, Lexeme.isMarked, hmark.1, hmark.2, hmark.2 ▸ hd.isDigits]

/-- Fewer marks are allowed for an offset. -/
theorem IsMagnitude.of_offset (h : IsMagnitude [('x', 16), ('X', 16)] word n) :
    IsMagnitude Numeral.baseMarks word n := by
  cases h with
  | decimal hd hlen => exact .decimal hd hlen
  | marked hb hd => exact .marked (List.mem_append_left _ hb) hd

theorem IsMagnitude.readLiteral (h : IsMagnitude Numeral.baseMarks word n) {mark : List Char}
    {negative : Bool} (hs : (mark, negative) ∈ signs) :
    Numeral.readLiteral (mark ++ word) = .ok (Numeral.signed negative n) := by
  obtain ⟨hm, rfl⟩ := mem_signs hs
  cases h with
  | decimal hd hlen =>
    rw [Numeral.readLiteral_digits hm hd.isDigits, hd.readDigits fun _ => hlen]
    rfl
  | @marked letter base digits _ hb hd =>
    have hletter := Numeral.markedBase?_eq_some_iff.2 hb
    obtain ⟨hname, -, hten⟩ := Numeral.markedBase?_cases hletter
    rw [Numeral.readLiteral_marked hm hname hletter hd.isDigits,
      hd.readDigits fun h => absurd h hten]
    rfl

/-! ## Numbers with a fraction -/

theorem takeWhile_digits {whole rest : List Char} (hw : Numeral.IsDecimal whole)
    (hr : ∀ c ∈ rest.head?, c.isDigit = false) :
    (whole ++ rest).takeWhile Char.isDigit = whole := by
  have h : (whole ++ []).takeWhile Char.isDigit = whole :=
    Lexeme.takeWhile_word (fun _ => Lexeme.isWordChar_of_digit) hw.2 rfl
  rwa [Lexeme.takeWhile_append_of_head (by simp), ← Lexeme.takeWhile_append_of_head hr] at h

theorem IsExponent.exponent? {e : Int} (h : IsExponent word e) :
    Lexeme.exponent? word = some (e, word.length) := by
  obtain ⟨hletter, hs, hd⟩ := h
  rename_i letter mark digits negative n
  obtain ⟨hm, rfl⟩ := mem_signs hs
  have hsign : Lexeme.sign (mark ++ digits) = mark := by
    have h : Lexeme.sign (mark ++ digits ++ []) = mark :=
      Lexeme.sign_numeral hm (Numeral.isNumeral_of_decimal hd.isDecimal)
    rwa [List.append_nil] at h
  have hdigits : digits.takeWhile Char.isDigit = digits := by
    have h : (digits ++ []).takeWhile Char.isDigit = digits :=
      takeWhile_digits hd.isDecimal (by simp)
    rwa [List.append_nil] at h
  have hcond : (letter = 'e' ∨ letter = 'E') ∧ digits ≠ [] :=
    ⟨by simpa using hletter, hd.isDecimal.1⟩
  simp only [Lexeme.exponent?, hsign, List.drop_left, hdigits, hd.decimalValue, if_pos hcond,
    List.length_cons, List.length_append]
  congr 2
  omega

/-- The first character of an exponent. -/
theorem IsExponent.head {e : Int} (h : IsExponent word e) :
    ∃ letter rest, word = letter :: rest ∧ letter ∈ ['e', 'E'] := by
  obtain ⟨hletter, -, -⟩ := h
  exact ⟨_, _, rfl, hletter⟩

/-- An exponent ends a run of digits, and does not start a fraction. -/
theorem exponentLetter_stops {letter : Char} (h : letter ∈ ['e', 'E']) :
    letter.isDigit = false ∧ letter ≠ '.' := by
  simp only [List.mem_cons, List.not_mem_nil, or_false] at h
  rcases h with rfl | rfl <;> decide

theorem decimalValue_append (a b : List Char) :
    Lexeme.decimalValue (a ++ b) =
      Lexeme.decimalValue a * tenPow b.length + Lexeme.decimalValue b := by
  rw [Lexeme.decimalValue, List.map_append, Numeral.ofDigits_append, List.length_map]
  rfl

/-- The digits before the point or the exponent are found. -/
theorem wholeDigits_digits {mark whole rest : List Char} (hm : Numeral.IsMark mark)
    (hw : Numeral.IsDecimal whole) (hr : ∀ c ∈ rest.head?, c.isDigit = false) :
    Lexeme.sign (mark ++ whole ++ rest) = mark ∧
      Lexeme.wholeDigits (mark ++ whole ++ rest) = whole ∧
      Lexeme.afterWhole (mark ++ whole ++ rest) = rest := by
  have hnumeral := Numeral.isNumeral_of_decimal hw
  have hsign : Lexeme.sign (mark ++ whole ++ rest) = mark := Lexeme.sign_numeral hm hnumeral
  have hwhole : Lexeme.wholeDigits (mark ++ whole ++ rest) = whole := by
    rw [Lexeme.wholeDigits, Lexeme.drop_sign_numeral hm hnumeral, takeWhile_digits hw hr]
  refine ⟨hsign, hwhole, ?_⟩
  rw [Lexeme.afterWhole, hsign, hwhole, ← List.length_append, List.drop_left]

/-- The point with the digits after it is found. -/
theorem fraction_digits {part rest : List Char} (hp : Numeral.IsDecimal part)
    (hr : ∀ c ∈ rest.head?, c.isDigit = false) :
    Lexeme.fraction? ('.' :: (part ++ rest)) = some part ∧
      Lexeme.fractionLength ('.' :: (part ++ rest)) = part.length + 1 ∧
      ('.' :: (part ++ rest)).drop (Lexeme.fractionLength ('.' :: (part ++ rest))) = rest := by
  have hf : Lexeme.fraction? ('.' :: (part ++ rest)) = some part := by
    simp only [Lexeme.fraction?, takeWhile_digits hp hr, if_neg hp.1]
  have hlen : Lexeme.fractionLength ('.' :: (part ++ rest)) = part.length + 1 := by
    rw [Lexeme.fractionLength, hf]
  exact ⟨hf, hlen, by rw [hlen, List.drop_succ_cons, List.drop_left]⟩

/-- A number is found as a whole from its parts: the digits, and what stands after them. -/
theorem decimal?_of_parts {mark whole rest : List Char} {part : Option (List Char)}
    {e : Option (Int × Nat)} (hm : Numeral.IsMark mark) (hw : Numeral.IsDecimal whole)
    (hr : ∀ c ∈ rest.head?, c.isDigit = false) (hf : Lexeme.fraction? rest = part)
    (he : Lexeme.exponent? (rest.drop (Lexeme.fractionLength rest)) = e)
    (hsome : part.isSome = true ∨ e.isSome = true)
    (hlen : Lexeme.fractionLength rest +
      Lexeme.exponentLength (rest.drop (Lexeme.fractionLength rest)) = rest.length) :
    Lexeme.decimal? (mark ++ whole ++ rest) =
      some ({ negative := decide (mark = ['-'])
              coefficient := Lexeme.decimalValue (whole ++ part.getD [])
              exponent := (e.map (·.1)).getD 0 - (part.getD []).length },
        (mark ++ whole ++ rest).length) := by
  obtain ⟨hsign, hwhole, hafter⟩ := wholeDigits_digits hm hw hr
  have hlength : Lexeme.decimalLength (mark ++ whole ++ rest) = (mark ++ whole ++ rest).length := by
    rw [Lexeme.decimalLength, Lexeme.afterFraction, hsign, hwhole, hafter, Nat.add_assoc, hlen,
      List.length_append, List.length_append]
  rw [Lexeme.decimal?_eq, hlength, Lexeme.afterFraction, hsign, hwhole, hafter, hf, he, if_pos]
  exact ⟨hw.1, hsome, by simp [Lexeme.startsWord]⟩

/-- **A number with a fraction or an exponent** is found as a whole. -/
theorem IsFraction.decimal? {coefficient : Nat} {exponent : Int}
    (h : IsFraction word coefficient exponent) {mark : List Char} {negative : Bool}
    (hs : (mark, negative) ∈ signs) :
    Lexeme.decimal? (mark ++ word) =
      some ({ negative := negative, coefficient := coefficient, exponent := exponent },
        (mark ++ word).length) := by
  obtain ⟨hm, rfl⟩ := mem_signs hs
  cases h with
  | @fraction whole part a b hw hp =>
    obtain ⟨hf, hlen, hend⟩ := @fraction_digits part [] hp.isDecimal (by simp)
    rw [List.append_nil] at hf hlen hend
    rw [← List.append_assoc, decimal?_of_parts (e := none) hm hw.isDecimal (by simp) hf
      (by rw [hend]; rfl) (.inl rfl) (by rw [hend, hlen]; rfl)]
    simp [decimalValue_append, hw.decimalValue, hp.decimalValue]
  | @both whole part tail a b e hw hp ht =>
    obtain ⟨letter, rest, rfl, hl⟩ := ht.head
    obtain ⟨hf, hlen, hend⟩ := @fraction_digits part (letter :: rest) hp.isDecimal
      (by simp [(exponentLetter_stops hl).1])
    have he : Lexeme.exponent? (('.' :: (part ++ letter :: rest)).drop
        (Lexeme.fractionLength ('.' :: (part ++ letter :: rest)))) = some (e, rest.length + 1) := by
      rw [hend]
      exact ht.exponent?
    rw [← List.append_assoc, decimal?_of_parts hm hw.isDecimal (by simp) hf he (.inl rfl)
      (by rw [Lexeme.exponentLength, he, hlen]; simp; omega)]
    simp [decimalValue_append, hw.decimalValue, hp.decimalValue]
  | @exponent whole tail _ _ hw ht =>
    obtain ⟨letter, rest, rfl, hl⟩ := ht.head
    obtain ⟨hdigit, hpoint⟩ := exponentLetter_stops hl
    have hf : Lexeme.fraction? (letter :: rest) = none := by simp [Lexeme.fraction?, hpoint]
    have hlen : Lexeme.fractionLength (letter :: rest) = 0 := by rw [Lexeme.fractionLength, hf]
    have he : Lexeme.exponent? ((letter :: rest).drop (Lexeme.fractionLength (letter :: rest))) =
        some (exponent, rest.length + 1) := by
      rw [hlen]
      exact ht.exponent?
    rw [← List.append_assoc, decimal?_of_parts hm hw.isDecimal (by simp [hdigit]) hf he (.inr rfl)
      (by rw [Lexeme.exponentLength, he, hlen]; simp)]
    simp [hw.decimalValue]

/-- A word of digits that goes on with a point or an exponent is no numeral. -/
theorem not_isNumeral {whole more : List Char} {x : Char} (hw : Numeral.IsDecimal whole)
    (hx : x ∈ ['.', 'e', 'E']) : ¬ Lexeme.isNumeral (whole ++ x :: more) = true := by
  have hpoint : ∀ c ∈ ['.', 'e', 'E'], c.isDigit = false ∧ Numeral.markedBase? c = none :=
    Lexeme.forall_mem_of_all (by decide)
  obtain ⟨hdigit, hmark⟩ := hpoint x hx
  intro h
  rcases Bool.or_eq_true_iff.1 h with h | h
  · have := (Numeral.isDecimal_of_isDigits h).2 x (by simp)
    rw [hdigit] at this
    cases this
  · -- the second character would mark a base, but it is a digit or `x`
    obtain ⟨letter, digits, base, heq, hb, -, -⟩ := Numeral.isMarked_cases h
    match whole, hw with
    | [], hw => exact hw.1 rfl
    | [c], _ =>
      cases heq
      rw [hmark] at hb
      cases hb
    | c :: d :: whole, hw =>
      cases heq
      have hnone := Numeral.forall_digit (P := fun c => Numeral.markedBase? c = none) (by decide)
        (hw.2 letter (by simp))
      rw [hnone] at hb
      cases hb

theorem IsFraction.head {coefficient : Nat} {exponent : Int}
    (h : IsFraction word coefficient exponent) :
    ∃ whole x rest, word = whole ++ x :: rest ∧ Numeral.IsDecimal whole ∧ x ∈ ['.', 'e', 'E'] := by
  cases h with
  | fraction hw _ => exact ⟨_, '.', _, rfl, hw.isDecimal, by simp⟩
  | both hw _ _ => exact ⟨_, '.', _, rfl, hw.isDecimal, by simp⟩
  | exponent hw ht =>
    obtain ⟨letter, rest, rfl, hl⟩ := ht.head
    exact ⟨_, letter, rest, rfl, hw.isDecimal, List.mem_cons_of_mem _ hl⟩

/-- **A number with a fraction or an exponent is no integer**, not even in part. -/
theorem IsFraction.integer? {coefficient : Nat} {exponent : Int}
    (h : IsFraction word coefficient exponent) {mark : List Char} (hm : Numeral.IsMark mark)
    (tail : List Char) : Lexeme.integer? (mark ++ word ++ tail) = none := by
  obtain ⟨whole, x, rest, rfl, hw, hx⟩ := h.head
  have hword : ∀ c ∈ whole ++ [x], Lexeme.isWordChar c = true := by
    intro c hc
    rcases List.mem_append.1 hc with hc | hc
    · exact Lexeme.isWordChar_of_digit (hw.2 c hc)
    · rw [List.mem_singleton.1 hc]
      exact Lexeme.forall_mem_of_all (P := fun c => Lexeme.isWordChar c = true) (by decide) x hx
  have htext : mark ++ (whole ++ x :: rest) ++ tail = mark ++ whole ++ (x :: (rest ++ tail)) := by
    simp
  have htake : (whole ++ x :: (rest ++ tail)).takeWhile Lexeme.isWordChar =
      whole ++ x :: (rest ++ tail).takeWhile Lexeme.isWordChar := by
    rw [← List.singleton_append, ← List.append_assoc, List.takeWhile_append_of_pos hword]
    simp
  simp only [Lexeme.integer?]
  rw [htext, Lexeme.drop_sign_numeral hm (Numeral.isNumeral_of_decimal hw), htake,
    if_neg (not_isNumeral hw hx)]

/-! ## Registers and characters -/

theorem IsRegister.registerName? {text : List Char} {r : Register} (h : IsRegister text r)
    (ht : Lexeme.Breaks tail) :
    ∃ name, Lexeme.registerName? (text ++ tail) = some name ∧ text = '$' :: name ∧
      Register.resolve name = .ok r := by
  obtain ⟨hs, hne, hname, hr⟩ := h
  rename_i mark word negative
  obtain ⟨hm, -⟩ := mem_signs hs
  have hsign : Lexeme.sign (mark ++ word) = mark := by
    have h : Lexeme.sign (mark ++ word ++ []) = mark := Lexeme.sign_word hm hne hname
    rwa [List.append_nil] at h
  have hword : word.takeWhile Lexeme.isNameChar = word := by
    have h : (word ++ []).takeWhile Lexeme.isNameChar = word :=
      Lexeme.takeWhile_word (fun _ => Lexeme.isWordChar_of_nameChar) hname rfl
    rwa [List.append_nil] at h
  refine ⟨mark ++ word, ?_, rfl, hr⟩
  rw [Lexeme.registerName?_append ht]
  simp only [Lexeme.registerName?, hsign, List.drop_left, hword, if_neg hne]

theorem IsCharacter.body {body : List Char} {c : Char} (h : IsCharacter body c) :
    Lexeme.IsCharacterBody body ∧ Text.unescape body = some [c] := by
  cases h with
  | raw hc =>
    simp only [List.mem_cons, List.not_mem_nil, or_false, not_or] at hc
    exact ⟨.inr ⟨c, hc.1, hc.2.1, hc.2.2, rfl⟩, rfl⟩
  | @escape letter _ hc =>
    have hall : ∀ p ∈ escapes, p.1 ≠ '\n' ∧ Text.escaped? p.1 = some p.2 := by decide
    obtain ⟨hn, hv⟩ := hall _ hc
    exact ⟨.inl ⟨letter, hn, rfl⟩, Text.unescape_cons_backslash hv hn []⟩

end Spelling

namespace Parser

open Spelling
open Lexeme (gap)

variable {text tail : List Char}

/-! ## Reading numbers, registers, references and characters -/

theorem integer_reads {v : Int} (h : IsInteger text v) (ht : Lexeme.startsWord tail = false) :
    integer.Reads text tail (· = v) := by
  obtain ⟨hs, hmag⟩ := h
  rename_i mark word negative n
  have hscan : (scan fun text => (Lexeme.integer? text).map fun found =>
      (found, found.length)).Reads (mark ++ word) tail (· = mark ++ word) :=
    .scan (by rw [Lexeme.integer?_numeral (mem_signs hs).1 hmag.isNumeral ht]; rfl)
  refine .bind_pure hscan fun literal hliteral => ?_
  subst hliteral
  exact .ofExcept (hmag.readLiteral hs) tail

theorem placedInteger_reads {v : Int} (h : IsInteger text v)
    (ht : Lexeme.startsWord tail = false) :
    placedInteger.Reads text tail fun placed => placed.2 = v := by
  refine .bind_nil (.position _) fun start _ => ?_
  refine .bind_pure (integer_reads h ht) fun value hvalue => ?_
  exact (Reads.pure (start, value) tail).mono fun placed hplaced => by rw [hplaced, hvalue]

theorem immediate_reads {v : Int} (h : IsInteger text v) (hv : IsImmediate v)
    (ht : Lexeme.startsWord tail = false) : immediate.Reads text tail (· = v) := by
  refine .bind_pure (placedInteger_reads h ht) fun placed hplaced => ?_
  obtain ⟨start, value⟩ := placed
  subst hplaced
  simp only [(fits_iff_isImmediate value).2 hv, if_true]
  exact .pure value tail

theorem float_reads {x : Binary64} (h : IsFloat text x) (ht : Lexeme.Breaks tail) :
    float.Reads text tail (· = x) := by
  obtain ⟨hs, hf⟩ := h
  refine .map (.scan ?_) fun d hd => by rw [hd]
  rw [Lexeme.decimal?_append ht, hf.decimal? hs]

theorem register_reads {r : Register} (h : IsRegister text r) (ht : Lexeme.Breaks tail) :
    register.Reads text tail (· = r) := by
  obtain ⟨name, hname, rfl, hr⟩ := h.registerName? ht
  have hscan : (scan fun text => (Lexeme.registerName? text).map fun name =>
      (name, name.length + 1)).Reads ('$' :: name) tail (· = name) :=
    .scan (by rw [hname]; rfl)
  refine .bind_nil (.position _) fun start _ => ?_
  refine .bind_pure hscan fun found hfound => ?_
  subst hfound
  rw [hr]
  exact .pure r tail

theorem character_reads {body : List Char} {c : Char} (h : IsCharacter body c)
    (tail : List Char) :
    character.Reads ('\'' :: (body ++ ['\''])) tail (· = String.ofList [c]) :=
  quoted_reads (Lexeme.character?_eq_some_iff.2 ⟨h.body.1, List.prefix_append _ _⟩) h.body.2

/-- A reference is read where neither its name nor an offset goes on after it. -/
theorem symbol_reads {s : Symbol} (h : IsSymbol text s) (ht : Lexeme.startsWord tail = false)
    (hoffset : Lexeme.symbolOffset? tail = none) : symbol.Reads text tail (· = s) := by
  cases h with
  | plain hname =>
    have hnone : (optional (scan Lexeme.symbolOffset?)).Reads [] tail (· = none) :=
      .optional_none (.scan hoffset)
    refine .bind_pure (identifier_reads hname ht) fun name hv => ?_
    refine .bind_nil hnone fun found hfound => ?_
    subst hv hfound
    exact .pure _ tail
  | @shifted name mark negative word n a b hname hs hw =>
    have hmark : Numeral.isSign mark = true ∧ Lexeme.isWordChar mark = false ∧
        negative = decide (mark = '-') := by
      simp only [signs, List.mem_cons, Prod.mk.injEq, List.cons.injEq, reduceCtorEq, and_true,
        List.not_mem_nil, or_false, false_and, false_or] at hs
      rcases hs with ⟨rfl, rfl⟩ | ⟨rfl, rfl⟩ <;> decide
    have hsome : (optional (scan Lexeme.symbolOffset?)).Reads
        (gap a ++ mark :: (gap b ++ word)) tail fun found =>
          ∃ v, found = some v ∧ v = (mark, word) := by
      refine .optional_some (.scan ?_)
      have h := Lexeme.symbolOffset?_numeral hmark.1 hw.isOffset ht a b
      simp only [List.append_assoc, List.cons_append]
      rw [h]
      simp
      omega
    have hstop : Lexeme.startsWord (gap a ++ mark :: (gap b ++ word) ++ tail) = false := by
      cases a with
      | zero => exact hmark.2.1
      | succ a => rfl
    have hbare : (([] : List Char), false) ∈ signs := by decide
    have hread : Numeral.readLiteral word = .ok (n : Int) := hw.of_offset.readLiteral hbare
    refine .bind (identifier_reads hname hstop) fun found hv => ?_
    refine .bind_pure hsome fun found hfound => ?_
    obtain ⟨_, rfl, rfl⟩ := hfound
    refine .bind_pure (.ofExcept hread tail) fun distance hdist => ?_
    subst hv hdist
    refine (Reads.pure _ tail).mono fun v hv => ?_
    rw [hv, hmark.2.2]
    simp [Numeral.signed]

end Parser

end MipsSource
