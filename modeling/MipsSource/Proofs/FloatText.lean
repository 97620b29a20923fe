import MipsSource.Proofs.OperandText
import MipsSource.Proofs.ProgramLoop
import MipsSource.Proofs.ShortestDigits

/-!
# The text of numbers with a fraction

A finite number is written as one of the spellings of such numbers: positionally, always with a
digit after the point, or with an exponent. Infinity is written as a word, and numbers that are read
can be infinite: what is written of them is no number.

* `Binary64.magnitude_ofDecimal`: a decimal number is rounded to a number, or to infinity.
* `Binary64.isFloat_text`: what is written of a finite number is a number with a fraction.
* `Operand.float_readsBack_iff`: which numbers with a fraction are read back as such.
-/

set_option autoImplicit false

namespace MipsSource

open Spelling

theorem Numeral.IsDecimal.append_left {front word : List Char} (hw : IsDecimal word)
    (hf : ∀ c ∈ front, c.isDigit = true) : IsDecimal (front ++ word) := by
  refine ⟨List.append_ne_nil_of_right_ne_nil _ hw.1, fun c hc => ?_⟩
  rcases List.mem_append.1 hc with h | h
  · exact hf c h
  · exact hw.2 c h

theorem Numeral.IsDecimal.append_right {word tail : List Char} (hw : IsDecimal word)
    (ht : ∀ c ∈ tail, c.isDigit = true) : IsDecimal (word ++ tail) := by
  refine ⟨List.append_ne_nil_of_left_ne_nil hw.1 _, fun c hc => ?_⟩
  rcases List.mem_append.1 hc with h | h
  · exact hw.2 c h
  · exact ht c h

theorem Numeral.zeros_isDigit {n : Nat} : ∀ c ∈ List.replicate n '0', c.isDigit = true := by
  intro c hc
  rw [List.eq_of_mem_replicate hc]
  decide

theorem Spelling.isDigits_of_isDecimal {word : List Char} (h : Numeral.IsDecimal word) :
    ∃ n, IsDigits 10 word n :=
  exists_isDigits (Numeral.isDigits_of_decimal h) (by decide)

namespace Binary64

/-! ## Signs and magnitudes -/

theorem infinityBits_lt : infinityBits < twoPow 63 := by decide

/-- A sign and a magnitude make up a number. -/
theorem ofMagnitude_parts (negative : Bool) {m : Nat} (h : m < twoPow 63) :
    (ofMagnitude negative m).magnitude = m ∧ (ofMagnitude negative m).isNegative = negative := by
  have h64 : twoPow 63 + twoPow 63 = 2 ^ 64 := by decide
  have hbits : (ofMagnitude negative m).bits.toNat = if negative then twoPow 63 + m else m := by
    rw [ofMagnitude, UInt64.toNat_ofNat']
    refine Nat.mod_eq_of_lt ?_
    split <;> omega
  rw [magnitude, isNegative, hbits]
  cases negative with
  | true => simp [Nat.mod_eq_of_lt h]
  | false => simp [Nat.mod_eq_of_lt h, h]

theorem roundRatio_le (num den : Nat) : roundRatio num den ≤ infinityBits := by
  unfold roundRatio
  split
  · exact Nat.zero_le _
  · exact Nat.min_le_right _ _

theorem roundDecimal_le (coefficient : Nat) (exponent : Int) :
    roundDecimal coefficient exponent ≤ infinityBits := by
  unfold roundDecimal
  split
  · exact Nat.zero_le _
  · split
    · split
      · exact Nat.le_refl _
      · exact roundRatio_le _ _
    · split
      · exact Nat.zero_le _
      · exact roundRatio_le _ _

/-- **A decimal number is rounded to a number, or to infinity.** -/
theorem magnitude_ofDecimal (d : Decimal) : (ofDecimal d).magnitude ≤ infinityBits := by
  have hle := roundDecimal_le d.coefficient d.exponent
  rw [ofDecimal, (ofMagnitude_parts _ (Nat.lt_of_le_of_lt hle infinityBits_lt)).1]
  exact hle

/-! ## Layouts -/

/-- Digits with a point among them are a number with a fraction. -/
theorem isFraction_positional {digits : List Char} (h : Numeral.IsDecimal digits) (point : Int) :
    ∃ coefficient exponent, IsFraction (positional digits point) coefficient exponent := by
  have hzero : Numeral.IsDecimal ['0'] := ⟨by simp, Lexeme.forall_mem_of_all (by decide)⟩
  unfold positional
  split
  · obtain ⟨a, ha⟩ := isDigits_of_isDecimal hzero
    obtain ⟨b, hb⟩ := isDigits_of_isDecimal (h.append_left Numeral.zeros_isDigit)
    exact ⟨_, _, .fraction ha hb⟩
  · rename_i hpoint
    have hwhole : Numeral.IsDecimal (digits.take point.toNat) := by
      refine ⟨?_, fun c hc => h.2 c (List.mem_of_mem_take hc)⟩
      rw [Ne, List.take_eq_nil_iff]
      rintro (hnone | hnil)
      · omega
      · exact h.1 hnil
    have hpart : Numeral.IsDecimal (if digits.drop point.toNat = [] then ['0'] else
        digits.drop point.toNat) := by
      split
      · exact hzero
      · rename_i hne
        exact ⟨hne, fun c hc => h.2 c (List.mem_of_mem_drop hc)⟩
    obtain ⟨a, ha⟩ := isDigits_of_isDecimal (hwhole.append_right Numeral.zeros_isDigit)
    obtain ⟨b, hb⟩ := isDigits_of_isDecimal hpart
    exact ⟨_, _, .fraction ha hb⟩

/-- Digits with an exponent are a number with a fraction, with a point or without. -/
theorem isFraction_scientific (width : Nat) {digits : List Char} (h : Numeral.IsDecimal digits)
    (point : Int) :
    ∃ coefficient exponent, IsFraction (scientific width digits point) coefficient exponent := by
  -- zeros fill up the digits of the exponent
  obtain ⟨n, hn⟩ := isDigits_of_isDecimal
    ((Numeral.isDecimal_toDigits (point - 1).natAbs).append_left (Numeral.zeros_isDigit
      (n := width - (Nat.toDigits 10 (point - 1).natAbs).length)))
  obtain ⟨mark, negative, hsign, hmark⟩ : ∃ mark negative, ([mark], negative) ∈ signs ∧
      (if point - 1 < 0 then '-' else '+') = mark := by
    split
    · exact ⟨'-', true, by decide, rfl⟩
    · exact ⟨'+', false, by decide, rfl⟩
  have htail : IsExponent ('e' :: ([mark] ++ _)) _ := .intro (by decide) hsign hn
  unfold scientific
  simp only [hmark]
  match digits, h with
  | [], h => exact absurd rfl h.1
  | [first], h =>
    obtain ⟨a, ha⟩ := isDigits_of_isDecimal h
    exact ⟨_, _, .exponent ha htail⟩
  | first :: second :: rest, h =>
    have hfirst : Numeral.IsDecimal [first] :=
      ⟨by simp, fun c hc => h.2 c (List.mem_singleton.1 hc ▸ List.mem_cons_self)⟩
    have hrest : Numeral.IsDecimal (second :: rest) :=
      ⟨by simp, fun c hc => h.2 c (List.mem_cons_of_mem _ hc)⟩
    obtain ⟨a, ha⟩ := isDigits_of_isDecimal hfirst
    obtain ⟨b, hb⟩ := isDigits_of_isDecimal hrest
    exact ⟨_, _, .both ha hb htail⟩

theorem isFraction_magnitudeText (l : Layout) {x : Binary64} (h : x.magnitude < infinityBits) :
    ∃ coefficient exponent, IsFraction (magnitudeText l x) coefficient exponent := by
  unfold magnitudeText
  rw [if_neg (by omega)]
  split
  · have hzero : IsDigits 10 ['0'] 0 := .single (by decide) (by decide)
    exact ⟨_, _, .fraction hzero hzero⟩
  · rename_i hne
    simp only
    split
    · exact isFraction_positional (isDecimal_shortest hne) _
    · exact isFraction_scientific _ (isDecimal_shortest hne) _

/-- **What is written of a finite number is a number with a fraction.** -/
theorem isFloat_text {x : Binary64} (h : x.magnitude < infinityBits) :
    ∃ y, IsFloat x.text.toList y := by
  obtain ⟨coefficient, exponent, hfraction⟩ := isFraction_magnitudeText layout h
  have htext : x.text.toList = Numeral.minus x.isNegative ++ magnitudeText layout x := by
    rw [text, if_neg (by omega)]
    cases x.isNegative <;> simp [Numeral.minus]
  rw [htext]
  exact ⟨_, .intro (minus_mem_signs _) hfraction⟩

/-- What is written of infinity. -/
theorem text_infinity {x : Binary64} (h : x.magnitude = infinityBits) :
    x.text = "inf" ∨ x.text = "-inf" := by
  rw [text, if_neg (by omega), magnitudeText, if_pos h]
  cases x.isNegative
  · exact .inl rfl
  · exact .inr rfl

end Binary64

/-! ## Reading back -/

/-- A number with a fraction that is read is a decimal number, rounded. -/
theorem Parser.operand_float :
    operand.Ensures fun _ o _ => ∀ x, o = .float x → ∃ d, x = Binary64.ofDecimal d := by
  have hfloat : float.Ensures fun _ x _ => ∃ d, x = Binary64.ofDecimal d :=
    .map (.scan fun c d n hs => ⟨(Lexeme.decimal?_spec hs).2, trivial⟩) fun _ d _ _ => ⟨d, rfl⟩
  refine .choice fun p hp => ?_
  simp only [simpleOperands, List.mem_cons, List.not_mem_nil, or_false] at hp
  rcases hp with rfl | rfl | rfl | rfl | rfl | rfl
  · refine memory_ensures.mono fun _ o _ h x hx => ?_
    obtain ⟨⟨base, d, rfl⟩, -⟩ := h
    cases hx
  · exact .map register_consumes fun _ _ _ _ x hx => by cases hx
  · exact .map hfloat fun _ _ _ h x hx => by cases hx; exact h
  · exact .map immediate_ensures fun _ _ _ _ x hx => by cases hx
  · exact .map character_ensures fun _ _ _ _ x hx => by cases hx
  · exact .map symbol_ensures fun _ _ _ _ x hx => by cases hx

namespace Operand

theorem ofText_eq_ok {text : List Char} {o : Operand} (h : ofText text = .ok o) :
    ∃ after, Parser.operand (.start text) = .matched o after := by
  unfold ofText at h
  simp only at h
  split at h
  · rename_i value after hm
    split at h
    · cases h
      exact ⟨after, hm⟩
    · cases h
  · cases h
  · cases h

/-- The words for infinity are read as a reference, or not at all. -/
theorem ofText_infinity (y : Binary64) :
    ofText "inf".toList ≠ .ok (.float y) ∧ ofText "-inf".toList ≠ .ok (.float y) := by
  have hplus : (ofText "inf".toList).toOption = some (.symbol { name := "inf" }) := by
    decide +kernel
  have hminus : (ofText "-inf".toList).toOption = none := by decide +kernel
  constructor
  · intro h
    rw [h] at hplus
    cases hplus
  · intro h
    rw [h] at hminus
    cases hminus

/-- **Which numbers with a fraction are read back as such**: of those that are read, the finite
ones. -/
theorem float_readsBack_iff {text : List Char} {x : Binary64} (h : ofText text = .ok (.float x)) :
    ∃ shown, (Operand.float x).render = .ok shown ∧
      ((∃ y, ofText shown.toList = .ok (.float y)) ↔ x.magnitude < Binary64.infinityBits) := by
  refine ⟨x.text, rfl, fun ⟨y, hy⟩ => ?_, fun hfinite => ?_⟩
  · obtain ⟨after, hm⟩ := ofText_eq_ok h
    obtain ⟨-, -, -, hvalue⟩ := Parser.operand_float _ _ _ hm
    obtain ⟨d, rfl⟩ := hvalue x rfl
    -- no magnitude that is read is above that of infinity, and the words for infinity are no number
    refine Nat.lt_of_le_of_ne (Binary64.magnitude_ofDecimal d) fun hinf => ?_
    obtain ⟨hplus, hminus⟩ := ofText_infinity y
    rcases Binary64.text_infinity hinf with htext | htext
    · rw [htext] at hy
      exact hplus hy
    · rw [htext] at hy
      exact hminus hy
  · obtain ⟨y, hy⟩ := Binary64.isFloat_text hfinite
    exact ⟨y, ofText_spelled (.float hy)⟩

/-- A number that is written with an exponent. -/
theorem float_readsBack_exponent :
    ofText "6.02e23".toList = .ok (.float ⟨4962930089146241889⟩) ∧
      (Operand.float ⟨4962930089146241889⟩).render = .ok "6.02e+23" ∧
      ∃ y, ofText "6.02e+23".toList = .ok (.float y) := by
  have hread : ofText "6.02e23".toList = .ok (.float ⟨4962930089146241889⟩) :=
    eq_ok_of_toOption (by decide +kernel)
  have hrender : (Operand.float ⟨4962930089146241889⟩).render = .ok "6.02e+23" :=
    eq_ok_of_toOption (by decide +kernel)
  obtain ⟨shown, hshown, hiff⟩ := float_readsBack_iff hread
  obtain rfl : "6.02e+23" = shown := Except.ok.inj (hrender.symm.trans hshown)
  exact ⟨hread, hrender, hiff.2 (by decide)⟩

/-- Numbers that are too large are read as infinity. What is written of it is read as a reference to
a label, and with a minus sign it is not read. -/
theorem float_infinity :
    ofText "1e999".toList = .ok (.float ⟨0x7ff0000000000000⟩) ∧
      (Operand.float ⟨0x7ff0000000000000⟩).render = .ok "inf" ∧
      ofText "inf".toList = .ok (.symbol { name := "inf" }) ∧
      ofText "-1e999".toList = .ok (.float ⟨0xfff0000000000000⟩) ∧
      (Operand.float ⟨0xfff0000000000000⟩).render = .ok "-inf" ∧
      (ofText "-inf".toList).toOption = none := by
  refine ⟨?_, rfl, ?_, ?_, rfl, by decide +kernel⟩
  · exact eq_ok_of_toOption (by decide +kernel)
  · exact eq_ok_of_toOption (by decide +kernel)
  · exact eq_ok_of_toOption (by decide +kernel)

end Operand

end MipsSource
