import MipsSource.Proofs.NumeralValues

/-!
# Numerals and their scanners

A numeral is a word of decimal digits, or of digits after the mark of a base. The scanners of
integers and of offsets take it as a whole where no word goes on after it, and the scanner of
numbers with a fraction does not take it. The digits that are written of a number are a numeral.

* `toList_text`: a number is written as a minus sign if it is negative, and its decimal digits.
* `integer?_numeral`, `symbolOffset?_numeral`: a numeral is found as a whole.
* `decimal?_numeral`: it is no number with a fraction or an exponent.
-/

set_option autoImplicit false

namespace MipsSource

namespace Numeral

/-- The sign that is written before the digits of a number. -/
def minus (negative : Bool) : List Char :=
  if negative then ['-'] else []

/-- The text is one decimal digit or more. -/
def IsDecimal (word : List Char) : Prop :=
  word ≠ [] ∧ ∀ c ∈ word, c.isDigit = true

theorem isDecimal_toDigits (n : Nat) : IsDecimal (Nat.toDigits 10 n) :=
  ⟨Nat.toDigits_ne_nil, fun _ hc => Nat.isDigit_of_mem_toDigits (by decide) (by decide) hc⟩

theorem toList_text (i : Int) :
    (text i).toList = minus (decide (i < 0)) ++ Nat.toDigits 10 i.natAbs := by
  unfold text
  split
  · rename_i h
    simp [minus, h, Nat.toList_repr]
  · rename_i h
    simp [minus, h, Nat.toList_repr]

/-! ## Digits -/

/-- The characters of written numbers. -/
def numeralChars : List Char :=
  ['-', '0', '1', '2', '3', '4', '5', '6', '7', '8', '9']

theorem mem_numeralChars_of_digit {c : Char} (h : c.isDigit = true) : c ∈ numeralChars := by
  have hc : 48 ≤ c.toNat ∧ c.toNat ≤ 57 := by
    simp only [Char.isDigit, Bool.and_eq_true, decide_eq_true_eq] at h
    exact ⟨UInt32.le_iff_toNat_le.1 h.1, UInt32.le_iff_toNat_le.1 h.2⟩
  have hcases : c.toNat = 48 ∨ c.toNat = 49 ∨ c.toNat = 50 ∨ c.toNat = 51 ∨ c.toNat = 52 ∨
      c.toNat = 53 ∨ c.toNat = 54 ∨ c.toNat = 55 ∨ c.toNat = 56 ∨ c.toNat = 57 := by omega
  rw [← Char.ofNat_toNat c]
  rcases hcases with h | h | h | h | h | h | h | h | h | h <;> rw [h] <;> decide

theorem mem_numeralChars {word : List Char} (hw : IsDecimal word) (negative : Bool) :
    ∀ c ∈ minus negative ++ word, c ∈ numeralChars := by
  intro c hc
  rcases List.mem_append.1 hc with h | h
  · cases negative with
    | true => rw [List.mem_singleton.1 h]; decide
    | false => cases h
  · exact mem_numeralChars_of_digit (hw.2 c h)

/-- What can be checked for the characters of written numbers but the sign holds for digits. -/
theorem forall_digit {P : Char → Prop} [DecidablePred P]
    (h : (numeralChars.tail.all fun c => decide (P c)) = true) {c : Char} (hc : c.isDigit = true) :
    P c := by
  have hmem : c ∈ numeralChars.tail := by
    have := mem_numeralChars_of_digit hc
    rcases List.mem_cons.1 this with rfl | h
    · exact absurd hc (by decide)
    · exact h
  exact Lexeme.forall_mem_of_all h c hmem

theorem digitBelow?_of_not_digit {c : Char} (hd : c.isDigit = false) : digitBelow? 10 c = none := by
  simp only [digitBelow?, digit?, hd, Bool.false_eq_true, if_false]
  split
  · simp
  · split
    · simp
    · rfl

theorem digitBelow?_digit {c : Char} (h : c.isDigit = true) :
    digitBelow? 10 c = some (c.toNat - '0'.toNat) :=
  forall_digit (P := fun c => digitBelow? 10 c = some (c.toNat - '0'.toNat)) (by decide) h

theorem isDigit_of_digitBelow? {c : Char} (h : (digitBelow? 10 c).isSome = true) :
    c.isDigit = true := by
  cases hd : c.isDigit with
  | true => rfl
  | false => rw [digitBelow?_of_not_digit hd] at h; cases h

theorem isDecimal_of_isDigits {word : List Char} (h : Lexeme.isDigits 10 word = true) :
    IsDecimal word :=
  ⟨(isDigits_iff.1 h).1, fun c hc => isDigit_of_digitBelow? ((isDigits_iff.1 h).2 c hc)⟩

theorem isDigits_of_decimal {word : List Char} (hw : IsDecimal word) :
    Lexeme.isDigits 10 word = true := by
  refine isDigits_iff.2 ⟨hw.1, fun c hc => ?_⟩
  rw [digitBelow?_digit (hw.2 c hc)]
  rfl

theorem isNumeral_of_decimal {word : List Char} (hw : IsDecimal word) :
    Lexeme.isNumeral word = true := by
  rw [Lexeme.isNumeral, isDigits_of_decimal hw, Bool.true_or]

/-! ## Values -/

theorem mapM_digitBelow? {word : List Char} (hw : ∀ c ∈ word, c.isDigit = true) :
    word.mapM (digitBelow? 10) = some (word.map fun c => c.toNat - '0'.toNat) := by
  induction word with
  | nil => rfl
  | cons c word ih =>
    rw [List.mapM_cons, digitBelow?_digit (hw c List.mem_cons_self),
      ih fun x hx => hw x (List.mem_cons_of_mem _ hx)]
    rfl

theorem signed_natAbs (i : Int) : signed (decide (i < 0)) i.natAbs = i := by
  simp only [signed, decide_eq_true_eq]
  split <;> omega

/-- Numbers of up to ten digits are written. -/
theorem isShowable_of_bounds {i : Int} (hlo : -9999999999 ≤ i) (hhi : i ≤ 9999999999) :
    isShowable i = true := by
  rw [isShowable_iff]
  have hpow : tenPow 10 = 10000000000 := by decide
  have hlen : (Nat.toDigits 10 i.natAbs).length ≤ 10 := by
    rw [length_toDigits_le_iff (by decide), hpow]
    omega
  exact Nat.le_trans hlen (by decide)

end Numeral

namespace Lexeme

variable {word tail : List Char}

/-! ## Scanners -/

theorem isWordChar_of_digit {c : Char} (h : c.isDigit = true) : isWordChar c = true := by
  simp [isWordChar, isNameChar, Char.isAlphanum, h]

theorem Ends.startsWord (ht : Ends tail) : startsWord tail = false :=
  startsWord_append ht.breaks []

/-- A run of characters stops where no word goes on. -/
theorem takeWhile_word {p : Char → Bool} (hp : ∀ c, p c = true → isWordChar c = true)
    (hw : ∀ c ∈ word, p c = true) (ht : startsWord tail = false) :
    (word ++ tail).takeWhile p = word := by
  have htail : tail.takeWhile p = [] := by
    cases tail with
    | nil => rfl
    | cons c tail =>
      have hc : ¬ p c = true := by
        intro h
        have := hp c h
        rw [startsWord] at ht
        rw [ht] at this
        cases this
      rw [List.takeWhile_cons, if_neg hc]
  rw [List.takeWhile_append_of_pos hw, htail, List.append_nil]

theorem dropWhile_word {p : Char → Bool} (hp : ∀ c, p c = true → isWordChar c = true)
    (hw : ∀ c ∈ word, p c = true) (ht : startsWord tail = false) :
    (word ++ tail).dropWhile p = tail := by
  have h := List.takeWhile_append_dropWhile (p := p) (l := word ++ tail)
  rw [takeWhile_word hp hw ht] at h
  exact List.append_cancel_left h

theorem takeWhile_numeral (hw : isNumeral word = true) (ht : startsWord tail = false) :
    (word ++ tail).takeWhile isWordChar = word :=
  takeWhile_word (fun _ h => h)
    (fun c hc => isWordChar_of_nameChar (Numeral.nameChars_of_isNumeral hw c hc)) ht

/-- After the decimal digits that a numeral starts with there is no point and no exponent: there is
nothing of a word, or the letter that marks a base. -/
theorem after_digits_numeral (hw : isNumeral word = true) (ht : startsWord tail = false) :
    ∀ c ∈ ((word ++ tail).dropWhile Char.isDigit).head?, c ∉ ['.', 'e', 'E'] := by
  rcases Bool.or_eq_true_iff.1 hw with hd | hd
  · rw [dropWhile_word (fun _ => isWordChar_of_digit) (Numeral.isDecimal_of_isDigits hd).2 ht]
    intro c hc hmem
    have hword : ∀ c ∈ ['.', 'e', 'E'], isWordChar c = true := forall_mem_of_all (by decide)
    cases tail with
    | nil => cases hc
    | cons d tail =>
      cases hc
      rw [startsWord, hword _ hmem] at ht
      cases ht
  · obtain ⟨letter, digits, base, rfl, hb, -, -⟩ := Numeral.isMarked_cases hd
    have hall : ∀ mark ∈ Numeral.baseMarks,
        mark.1.isDigit = false ∧ mark.1 ∉ ['.', 'e', 'E'] := by decide
    obtain ⟨hdigit, hletter⟩ := hall _ (Numeral.markedBase?_eq_some_iff.1 hb)
    rw [List.cons_append, List.cons_append, List.dropWhile_cons, if_pos (by decide),
      List.dropWhile_cons, hdigit]
    intro c hc
    cases hc
    exact hletter

/-- What starts with no point and no letter of an exponent is no fraction and no exponent. -/
theorem no_fraction_of_head {text : List Char} (h : ∀ c ∈ text.head?, c ∉ ['.', 'e', 'E']) :
    fraction? text = none ∧ exponent? text = none := by
  cases text with
  | nil => exact ⟨rfl, rfl⟩
  | cons c text =>
    have hc := h c rfl
    simp only [List.mem_cons, List.not_mem_nil, or_false, not_or] at hc
    simp [fraction?, exponent?, hc]

section
variable {mark : List Char} (hm : Numeral.IsMark mark)
include hm

/-- A word of letters, digits and underscores is preceded by its sign, if it has one. -/
theorem sign_word (hne : word ≠ []) (hw : ∀ c ∈ word, isNameChar c = true) :
    sign (mark ++ word ++ tail) = mark := by
  rcases hm with rfl | rfl | rfl
  · cases word with
    | nil => exact absurd rfl hne
    | cons c word => simp [sign, isSign_of_nameChar (hw c List.mem_cons_self)]
  · rfl
  · rfl

theorem sign_numeral (hw : isNumeral word = true) : sign (mark ++ word ++ tail) = mark :=
  sign_word hm (Numeral.ne_nil_of_isNumeral hw) (Numeral.nameChars_of_isNumeral hw)

theorem drop_sign_numeral (hw : isNumeral word = true) :
    (mark ++ word ++ tail).drop (sign (mark ++ word ++ tail)).length = word ++ tail := by
  rw [sign_numeral hm hw, List.append_assoc, List.drop_left]

/-- A numeral is found as a whole word. -/
theorem integer?_numeral (hw : isNumeral word = true) (ht : startsWord tail = false) :
    integer? (mark ++ word ++ tail) = some (mark ++ word) := by
  simp only [integer?]
  rw [drop_sign_numeral hm hw, takeWhile_numeral hw ht, if_pos hw, sign_numeral hm hw]

/-- A numeral without a fraction or an exponent is no number with one. -/
theorem decimal?_numeral (hw : isNumeral word = true) (ht : startsWord tail = false) :
    decimal? (mark ++ word ++ tail) = none := by
  have hafter : afterWhole (mark ++ word ++ tail) = (word ++ tail).dropWhile Char.isDigit := by
    have hsplit := List.takeWhile_append_dropWhile (p := Char.isDigit) (l := word ++ tail)
    rw [afterWhole, wholeDigits, ← List.drop_drop, drop_sign_numeral hm hw, ← hsplit,
      List.drop_left' (by rw [hsplit]), hsplit]
  obtain ⟨hfraction, hexponent⟩ := no_fraction_of_head (after_digits_numeral hw ht)
  rw [decimal?_eq, afterFraction, fractionLength, hafter, hfraction, List.drop_zero, hexponent]
  simp

end

/-- An offset is a sign, with spaces around it, and a numeral. -/
theorem symbolOffset?_numeral {mark : Char} (hm : Numeral.isSign mark = true)
    (hw : isOffset word = true) (ht : startsWord tail = false) (a b : Nat) :
    symbolOffset? (gap a ++ mark :: (gap b ++ (word ++ tail))) =
      some ((mark, word), a + 1 + b + word.length) := by
  have hmark : mark ≠ ' ' := ne_of_test hm (by decide)
  have hnumeral := Numeral.isNumeral_of_isOffset hw
  have hspace : ∀ c ∈ (word ++ tail).head?, c ≠ ' ' := by
    cases word with
    | nil => cases hw
    | cons c word =>
      intro d hd
      cases hd
      exact ne_of_test (Numeral.nameChars_of_isNumeral hnumeral c List.mem_cons_self) (by decide)
  have hbefore : spaces (gap a ++ mark :: (gap b ++ (word ++ tail))) = gap a :=
    spaces_gap fun c hc => by cases hc; exact hmark
  simp only [symbolOffset?, hbefore, length_gap, drop_gap, spaces_gap hspace,
    takeWhile_numeral hnumeral ht, hm, hw, Bool.and_self, if_true]

end Lexeme

end MipsSource
