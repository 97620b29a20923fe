import MipsSource.Proofs.Lexemes

/-!
# The values of numerals

A numeral is digits, in decimal or after the mark of a base, and a sign may stand before it. Nothing
of it is a blank, a digit of another script or an underscore, so it is read as it stands:

* `Numeral.readLiteral_digits`, `Numeral.readLiteral_marked`: the value is that of the digits.
* `Numeral.readLiteral_numeral`: there is a value, bounded by the length of the numeral, or the
  numeral is a decimal one with too many digits.
-/

set_option autoImplicit false

namespace MipsSource

/-! ## Characters of ASCII -/

namespace Text

/-- A character of ASCII. -/
def IsAscii (c : Char) : Prop :=
  c.toNat < 128

instance (c : Char) : Decidable (IsAscii c) :=
  inferInstanceAs (Decidable (c.toNat < 128))

/-- What holds of the first 128 code points holds of ASCII. -/
theorem forall_ascii {P : Char → Prop} (h : ∀ n : Fin 128, P (Char.ofNat n.val)) {c : Char}
    (hc : IsAscii c) : P c := by
  have hn := h ⟨c.toNat, hc⟩
  rwa [Char.ofNat_toNat] at hn

end Text

/-! ## Characters of names -/

namespace Lexeme

variable {c : Char}

theorem nameChar_bounds (h : isNameChar c = true) : 48 ≤ c.toNat ∧ c.toNat ≤ 122 := by
  delta isNameChar Char.isAlphanum Char.isAlpha Char.isUpper Char.isLower Char.isDigit at h
  simp only [Bool.or_eq_true, Bool.and_eq_true, decide_eq_true_eq, UInt32.le_iff_toNat_le,
    ge_iff_le] at h
  change (((65 ≤ c.toNat ∧ c.toNat ≤ 90) ∨ (97 ≤ c.toNat ∧ c.toNat ≤ 122)) ∨
    (48 ≤ c.toNat ∧ c.toNat ≤ 57)) ∨ c = '_' at h
  rcases h with ((h | h) | h) | rfl
  · omega
  · omega
  · omega
  · decide

theorem isSign_of_nameChar (h : isNameChar c = true) : Numeral.isSign c = false := by
  have hplus : c ≠ '+' := ne_of_test h (by decide)
  have hminus : c ≠ '-' := ne_of_test h (by decide)
  simp [Numeral.isSign, hplus, hminus]

theorem plainChar_of_nameChar (h : isNameChar c = true) : Numeral.plainChar c = c := by
  have hc := nameChar_bounds h
  rw [Numeral.plainChar, if_pos (by omega)]

theorem isAsciiBlank_of_nameChar (h : isNameChar c = true) : Numeral.isAsciiBlank c = false := by
  have hc := nameChar_bounds h
  have hspace : c ≠ ' ' := ne_of_test h (by decide)
  simp [Numeral.isAsciiBlank, hspace]
  omega

theorem isBlank_of_nameChar (h : isNameChar c = true) : Text.isBlank c = false := by
  have hc := nameChar_bounds h
  simp only [Text.isBlank, Text.blankCodes, List.contains_eq_mem, List.mem_cons, List.not_mem_nil,
    or_false, decide_eq_false_iff_not]
  omega

end Lexeme

namespace Numeral

/-! ## Signs -/

/-- A sign before a numeral, or none. -/
def IsMark (mark : List Char) : Prop :=
  mark = [] ∨ mark = ['+'] ∨ mark = ['-']

theorem isMark_sign (text : List Char) : IsMark (Lexeme.sign text) := by
  cases text with
  | nil => exact .inl rfl
  | cons c rest =>
    rw [Lexeme.sign]
    split
    · rename_i h
      simp only [isSign, Bool.or_eq_true, decide_eq_true_eq] at h
      rcases h with rfl | rfl
      · exact .inr (.inl rfl)
      · exact .inr (.inr rfl)
    · exact .inl rfl

section
variable {mark word : List Char} (hm : IsMark mark) (hw : ∀ c ∈ word, Lexeme.isNameChar c = true)
include hm hw

/-- What holds of both signs and of the characters of names holds of the whole literal. -/
theorem forall_literal {P : Char → Prop} (hplus : P '+') (hminus : P '-')
    (hname : ∀ c, Lexeme.isNameChar c = true → P c) : ∀ c ∈ mark ++ word, P c := by
  intro c hc
  rcases List.mem_append.1 hc with h | h
  · rcases hm with rfl | rfl | rfl
    · cases h
    · rw [List.mem_singleton.1 h]
      exact hplus
    · rw [List.mem_singleton.1 h]
      exact hminus
  · exact hname c (hw c h)

theorem trim_literal : Text.trim (mark ++ word) = mark ++ word :=
  Text.trim_of_no_blank
    (forall_literal hm hw (by decide) (by decide) fun _ => Lexeme.isBlank_of_nameChar)

theorem splitSign_literal : splitSign (mark ++ word) = (decide (mark = ['-']), word) := by
  rcases hm with rfl | rfl | rfl
  · cases word with
    | nil => rfl
    | cons c word =>
      have hc := hw c List.mem_cons_self
      have hplus : c ≠ '+' := Lexeme.ne_of_test hc (by decide)
      have hminus : c ≠ '-' := Lexeme.ne_of_test hc (by decide)
      simp [splitSign, hplus, hminus]
  · rfl
  · rfl

theorem parts_literal : parts (mark ++ word) = (decide (mark = ['-']), word) := by
  have hplain := forall_literal hm hw (P := fun c => plainChar c = c) (by decide) (by decide)
    fun _ => Lexeme.plainChar_of_nameChar
  have hblank := forall_literal hm hw (P := fun c => isAsciiBlank c = false) (by decide)
    (by decide) fun _ => Lexeme.isAsciiBlank_of_nameChar
  have hmap : (mark ++ word).map plainChar = mark ++ word := by
    rw [List.map_congr_left hplain, List.map_id']
  rw [parts, hmap, Text.trimWhile_of_all_not hblank, splitSign_literal hm hw]

theorem readDecimal_literal :
    readDecimal (mark ++ word) = (readDigits 10 word).map (signed (decide (mark = ['-']))) := by
  rw [readDecimal, parts_literal hm hw]

theorem dropWhile_isSign_literal : (mark ++ word).dropWhile isSign = word := by
  have hsign : word.dropWhile isSign = word :=
    Text.dropWhile_of_all_not fun c hc => Lexeme.isSign_of_nameChar (hw c hc)
  rcases hm with rfl | rfl | rfl
  · exact hsign
  · exact hsign
  · exact hsign

end

/-! ## Digits -/

theorem isNameChar_of_digitBelow? {base : Nat} {c : Char} (h : (digitBelow? base c).isSome = true) :
    Lexeme.isNameChar c = true := by
  have hdigit : (digit? c).isSome = true := by
    obtain ⟨d, hd⟩ := Option.isSome_iff_exists.1 h
    exact Option.isSome_iff_exists.2 ⟨d, (Option.filter_eq_some_iff.1 hd).1⟩
  unfold digit? at hdigit
  simp only [Lexeme.isNameChar, Char.isAlphanum, Bool.or_eq_true]
  split at hdigit
  · rename_i hc
    exact .inl (.inr hc)
  · split at hdigit
    · rename_i hc
      exact .inl (.inl (Bool.or_eq_true_iff.2 (.inr hc)))
    · split at hdigit
      · rename_i hc
        exact .inl (.inl (Bool.or_eq_true_iff.2 (.inl hc)))
      · cases hdigit

theorem isDigits_iff {base : Nat} {word : List Char} :
    Lexeme.isDigits base word = true ↔
      word ≠ [] ∧ ∀ c ∈ word, (digitBelow? base c).isSome = true := by
  simp [Lexeme.isDigits, List.all_eq_true]

/-- The digits of a base are characters of names, and none is an underscore. -/
theorem nameChars_of_isDigits {base : Nat} {word : List Char}
    (h : Lexeme.isDigits base word = true) : ∀ c ∈ word, Lexeme.isNameChar c = true :=
  fun c hc => isNameChar_of_digitBelow? ((isDigits_iff.1 h).2 c hc)

theorem no_underscore_of_isDigits {base : Nat} {word : List Char}
    (h : Lexeme.isDigits base word = true) : '_' ∉ word := by
  intro hmem
  have hnone : digitBelow? base '_' = none := rfl
  have hsome := (isDigits_iff.1 h).2 '_' hmem
  rw [hnone] at hsome
  cases hsome

theorem ungroup_of_no_underscore {word : List Char} (hw : '_' ∉ word) :
    ungroup true word = some word := by
  induction word with
  | nil => rfl
  | cons c word ih =>
    simp only [List.mem_cons, not_or] at hw
    rw [ungroup, if_neg (Ne.symm hw.1), ih hw.2]
    rfl

/-- A word without underscores has nothing to take out. -/
theorem ungroup_word {word : List Char} (hne : word ≠ []) (hw : '_' ∉ word) :
    ungroup false word = some word := by
  cases word with
  | nil => exact absurd rfl hne
  | cons c word =>
    -- the first digit makes the state what it is after a digit
    have h := ungroup_of_no_underscore hw
    simp only [List.mem_cons, not_or] at hw
    rw [ungroup, if_neg (Ne.symm hw.1)] at h
    rw [ungroup, if_neg (Ne.symm hw.1), h]

theorem mapM_digits {base : Nat} {word : List Char}
    (hw : ∀ c ∈ word, (digitBelow? base c).isSome = true) :
    ∃ digits, word.mapM (digitBelow? base) = some digits ∧ digits.length = word.length ∧
      ∀ d ∈ digits, d < base := by
  induction word with
  | nil => exact ⟨[], rfl, rfl, by simp⟩
  | cons c word ih =>
    obtain ⟨d, hd⟩ := Option.isSome_iff_exists.1 (hw c List.mem_cons_self)
    obtain ⟨digits, hds, hlen, hlt⟩ := ih fun x hx => hw x (List.mem_cons_of_mem _ hx)
    have hbase : d < base := by
      have := (Option.filter_eq_some_iff.1 hd).2
      simpa using this
    refine ⟨d :: digits, by simp [List.mapM_cons, hd, hds], by simp [hlen], fun x hx => ?_⟩
    rcases List.mem_cons.1 hx with rfl | hx
    · exact hbase
    · exact hlt x hx

/-- Digits below the base stand for a number below the power of the base. -/
theorem ofDigits_lt {base : Nat} {digits : List Nat} (h : ∀ d ∈ digits, d < base) :
    ofDigits base digits < Nat.pow base digits.length := by
  induction digits with
  | nil => exact Nat.one_pos
  | cons d digits ih =>
    have hd := h d List.mem_cons_self
    have hrest := ih fun x hx => h x (List.mem_cons_of_mem _ hx)
    have happend := ofDigits_append base [d] digits
    have hone : ofDigits base [d] = d := by simp [ofDigits]
    rw [List.singleton_append, hone] at happend
    calc ofDigits base (d :: digits)
        < d * Nat.pow base digits.length + Nat.pow base digits.length := by omega
      _ = (d + 1) * Nat.pow base digits.length := by rw [Nat.succ_mul]
      _ ≤ base * Nat.pow base digits.length := Nat.mul_le_mul_right _ hd
      _ = Nat.pow base (d :: digits).length := Nat.mul_comm _ _

/-- **Digits of a base** have a value below its power, unless there are too many in decimal. -/
theorem readDigits_of_isDigits {base : Nat} {word : List Char}
    (h : Lexeme.isDigits base word = true) :
    ∃ n, n < Nat.pow base word.length ∧
      readDigits base word =
        if base = 10 ∧ maxDigits < word.length then .error .tooManyDigits else .ok n := by
  obtain ⟨hne, hall⟩ := isDigits_iff.1 h
  obtain ⟨digits, hdigits, hlen, hlt⟩ := mapM_digits hall
  refine ⟨ofDigits base digits, by rw [← hlen]; exact ofDigits_lt hlt, ?_⟩
  rw [readDigits, ungroup_word hne (no_underscore_of_isDigits h), Option.bind_some, hdigits, ← hlen]

/-! ## Literals -/

section
variable {mark word : List Char} (hm : IsMark mark)
include hm

/-- A literal in decimal is its sign and its digits. -/
theorem readLiteral_digits (hw : Lexeme.isDigits 10 word = true) :
    readLiteral (mark ++ word) = (readDigits 10 word).map (signed (decide (mark = ['-']))) := by
  have hname := nameChars_of_isDigits hw
  have hmark : hasMark (mark ++ word) = false := by
    rw [hasMark, dropWhile_isSign_literal hm hname]
    split
    · rename_i letter rest
      -- a letter that marks a base is no decimal digit
      have hdigit := (isDigits_iff.1 hw).2 letter (by simp)
      have hx : letter ≠ 'x' := fun h => by rw [h] at hdigit; exact absurd hdigit (by decide)
      have hX : letter ≠ 'X' := fun h => by rw [h] at hdigit; exact absurd hdigit (by decide)
      have ho : letter ≠ 'o' := fun h => by rw [h] at hdigit; exact absurd hdigit (by decide)
      have hO : letter ≠ 'O' := fun h => by rw [h] at hdigit; exact absurd hdigit (by decide)
      have hb : letter ≠ 'b' := fun h => by rw [h] at hdigit; exact absurd hdigit (by decide)
      have hB : letter ≠ 'B' := fun h => by rw [h] at hdigit; exact absurd hdigit (by decide)
      simp [markedBase?, hx, hX, ho, hO, hb, hB]
    · rfl
  simp only [readLiteral, trim_literal hm hname, hmark, Bool.false_eq_true, if_false]
  exact readDecimal_literal hm hname

/-- A literal with the mark of a base is its sign and the digits after the mark. -/
theorem readLiteral_marked {letter : Char} {digits : List Char} {base : Nat}
    (hl : Lexeme.isNameChar letter = true) (hb : markedBase? letter = some base)
    (hw : Lexeme.isDigits base digits = true) :
    readLiteral (mark ++ '0' :: letter :: digits) =
      (readDigits base digits).map (signed (decide (mark = ['-']))) := by
  have hname : ∀ c ∈ '0' :: letter :: digits, Lexeme.isNameChar c = true := by
    intro c hc
    rcases List.mem_cons.1 hc with rfl | hc
    · decide
    · rcases List.mem_cons.1 hc with rfl | hc
      · exact hl
      · exact nameChars_of_isDigits hw c hc
  have hmark : hasMark (mark ++ '0' :: letter :: digits) = true := by
    rw [hasMark, dropWhile_isSign_literal hm hname]
    simp [hb]
  have hafter : afterMark digits = digits := by
    have hunder := no_underscore_of_isDigits hw
    unfold afterMark
    split
    · simp at hunder
    · rfl
  simp only [readLiteral, trim_literal hm hname, hmark, if_true]
  rw [readMarked, parts_literal hm hname]
  simp only [hb, hafter]

end

/-- The letters that mark a base. -/
def baseMarks : List (Char × Nat) :=
  [('x', 16), ('X', 16), ('o', 8), ('O', 8), ('b', 2), ('B', 2)]

theorem markedBase?_eq_some_iff {letter : Char} {base : Nat} :
    markedBase? letter = some base ↔ (letter, base) ∈ baseMarks := by
  simp only [markedBase?, baseMarks, List.mem_cons, Prod.mk.injEq, List.not_mem_nil, or_false]
  constructor
  · intro h
    repeat' split at h
    all_goals grind
  · rintro (⟨rfl, rfl⟩ | ⟨rfl, rfl⟩ | ⟨rfl, rfl⟩ | ⟨rfl, rfl⟩ | ⟨rfl, rfl⟩ | ⟨rfl, rfl⟩) <;> rfl

theorem markedBase?_cases {letter : Char} {base : Nat} (h : markedBase? letter = some base) :
    Lexeme.isNameChar letter = true ∧ base ≤ 16 ∧ base ≠ 10 := by
  have hall : ∀ mark ∈ baseMarks,
      Lexeme.isNameChar mark.1 = true ∧ mark.2 ≤ 16 ∧ mark.2 ≠ 10 := by decide
  exact hall _ (markedBase?_eq_some_iff.1 h)

theorem natAbs_signed (negative : Bool) (n : Nat) : (signed negative n).natAbs = n := by
  unfold signed
  split <;> omega

theorem isMarked_cases {allowed : Nat → Bool} {word : List Char}
    (h : Lexeme.isMarked allowed word = true) :
    ∃ letter digits base, word = '0' :: letter :: digits ∧ markedBase? letter = some base ∧
      allowed base = true ∧ Lexeme.isDigits base digits = true := by
  unfold Lexeme.isMarked at h
  split at h
  · rename_i letter digits
    split at h
    · rename_i base hb
      obtain ⟨ha, hd⟩ := Bool.and_eq_true_iff.1 h
      exact ⟨letter, digits, base, rfl, hb, ha, hd⟩
    · cases h
  · cases h

theorem isNumeral_of_marked {letter : Char} {digits : List Char} {base : Nat}
    (hb : markedBase? letter = some base) (hd : Lexeme.isDigits base digits = true) :
    Lexeme.isNumeral ('0' :: letter :: digits) = true := by
  simp [Lexeme.isNumeral, Lexeme.isMarked, hb, hd]

theorem isNumeral_of_isOffset {word : List Char} (h : Lexeme.isOffset word = true) :
    Lexeme.isNumeral word = true := by
  rcases Bool.or_eq_true_iff.1 h with h | h
  · rw [Lexeme.isNumeral, h, Bool.true_or]
  · obtain ⟨letter, digits, base, rfl, hb, -, hd⟩ := isMarked_cases h
    exact isNumeral_of_marked hb hd

theorem ne_nil_of_isNumeral {word : List Char} (h : Lexeme.isNumeral word = true) : word ≠ [] := by
  intro hnil
  rw [hnil] at h
  cases h

/-- The characters of a numeral are characters of names. -/
theorem nameChars_of_isNumeral {word : List Char} (h : Lexeme.isNumeral word = true) :
    ∀ c ∈ word, Lexeme.isNameChar c = true := by
  rcases Bool.or_eq_true_iff.1 h with h | h
  · exact nameChars_of_isDigits h
  · obtain ⟨letter, digits, base, rfl, hb, -, hd⟩ := isMarked_cases h
    intro c hc
    rcases List.mem_cons.1 hc with rfl | hc
    · decide
    · rcases List.mem_cons.1 hc with rfl | hc
      · exact (markedBase?_cases hb).1
      · exact nameChars_of_isDigits hd c hc

/-- **A numeral has a value**, bounded by its length, or it is decimal and too long. -/
theorem readLiteral_numeral {mark word : List Char} (hm : IsMark mark)
    (hw : Lexeme.isNumeral word = true) :
    (∃ v : Int, readLiteral (mark ++ word) = .ok v ∧ v.natAbs < Nat.pow 16 word.length) ∨
      (readLiteral (mark ++ word) = .error .tooManyDigits ∧ maxDigits < word.length) := by
  rcases Bool.or_eq_true_iff.1 hw with hd | hd
  · obtain ⟨n, hn, hread⟩ := readDigits_of_isDigits hd
    rw [readLiteral_digits hm hd, hread]
    by_cases hlong : 10 = 10 ∧ maxDigits < word.length
    · rw [if_pos hlong]
      exact .inr ⟨rfl, hlong.2⟩
    · rw [if_neg hlong]
      refine .inl ⟨_, rfl, ?_⟩
      rw [natAbs_signed]
      exact Nat.lt_of_lt_of_le hn (Nat.pow_le_pow_left (by decide) _)
  · obtain ⟨letter, digits, base, rfl, hb, -, hd⟩ := isMarked_cases hd
    obtain ⟨hl, hle, hten⟩ := markedBase?_cases hb
    obtain ⟨n, hn, hread⟩ := readDigits_of_isDigits hd
    rw [readLiteral_marked hm hl hb hd, hread, if_neg fun h => hten h.1]
    refine .inl ⟨_, rfl, ?_⟩
    rw [natAbs_signed]
    calc n < Nat.pow base digits.length := hn
      _ ≤ Nat.pow 16 digits.length := Nat.pow_le_pow_left hle _
      _ ≤ Nat.pow 16 ('0' :: letter :: digits).length :=
        Nat.pow_le_pow_right (by decide) (by simp only [List.length_cons]; omega)

end Numeral

end MipsSource
