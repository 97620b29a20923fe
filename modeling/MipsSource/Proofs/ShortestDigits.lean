import Mathlib.Data.List.TakeWhile
import Mathlib.Tactic.Ring
import MipsSource.Binary64.Shortest
import MipsSource.Proofs.Numerals

/-!
# The search for the shortest digits

The digits of a number are looked for on finer and finer grids, twenty of them at most. The search
ends before that: seventeen places after the first digit, the points of the grid lie closer
together than the number and its lower neighbour. So there are digits, and they are not all zero.

* `reaches_decimalPoint`: no power of ten is passed that the number does not reach.
* `holds_of_nearestOnGrid?`, `exists_nearestOnGrid?`: what is found on a grid reads back, and
  something is found on a fine one.
* `isDecimal_shortest`: there are digits.
-/

set_option autoImplicit false

namespace MipsSource

namespace Binary64

/-! ## Powers of ten as fractions -/

theorem tenPower_pos (e : Int) : 0 < (tenPower e).1 ∧ 0 < (tenPower e).2 :=
  ⟨tenPow_pos _, tenPow_pos _⟩

/-- `10 ^ (e + k) = 10 ^ k * 10 ^ e`, without fractions. -/
theorem tenPower_shift (e : Int) (k : Nat) :
    (tenPower (e + k)).1 * (tenPower e).2 =
      tenPow k * ((tenPower e).1 * (tenPower (e + k)).2) := by
  simp only [tenPower, ← tenPow_add]
  congr 1
  omega

/-- The number `num / den` is at least `10 ^ e`. -/
def Reaches (num den : Nat) (e : Int) : Prop :=
  den * (tenPower e).1 ≤ num * (tenPower e).2

theorem reaches_neg {num den k : Nat} (h : den ≤ num * tenPow k) : Reaches num den (-k) := by
  simpa [Reaches, tenPower] using h

/-- **The point stands after the first digit**, or before: the number reaches the power of ten below
it. -/
theorem reaches_decimalPoint {num den : Nat} {start : Int} (h : Reaches num den (start - 1))
    (fuel : Nat) : Reaches num den (decimalPoint num den fuel start - 1) := by
  induction fuel generalizing start with
  | zero => exact h
  | succ fuel ih =>
    unfold decimalPoint
    simp only
    split
    · exact h
    · rename_i hnot
      refine ih ?_
      rw [Int.add_sub_cancel]
      exact Nat.le_of_not_lt hnot

/-! ## Neighbourhoods -/

/-- A quarter of the last place of the significand, in the unit of the neighbourhood. -/
def quarter (x : Binary64) : Nat :=
  twoPow (x.unit - 2).toNat

theorem quarter_pos (x : Binary64) : 0 < x.quarter := twoPow_pos _

theorem significand_lt (x : Binary64) : x.significand < twoPow 53 := by
  have h53 : twoPow 53 = 2 * twoPow 52 := by rw [twoPow_succ, Nat.mul_comm]
  have hpos := twoPow_pos 52
  unfold significand
  split
  · rename_i h
    have := (Nat.div_eq_zero_iff_lt hpos).1 h
    omega
  · have := Nat.mod_lt x.magnitude hpos
    omega

theorem significand_pos {x : Binary64} (h : x.magnitude ≠ 0) : 0 < x.significand := by
  have hpos := twoPow_pos 52
  unfold significand
  split <;> omega

section

variable {x : Binary64}

theorem neighbourhood_value (x : Binary64) :
    x.neighbourhood.value = 4 * x.significand * x.quarter := rfl

theorem neighbourhood_high (x : Binary64) :
    x.neighbourhood.value < x.neighbourhood.high :=
  Nat.mul_lt_mul_of_pos_right (by omega) x.quarter_pos

/-- The lower end lies a quarter of the last place or more below the number, and above zero. -/
theorem neighbourhood_low (h : x.magnitude ≠ 0) :
    0 < x.neighbourhood.low ∧
      x.neighbourhood.low + x.quarter ≤ x.neighbourhood.value := by
  have hm := significand_pos h
  obtain ⟨below, hlow, hone, htwo⟩ : ∃ below, x.neighbourhood.low =
      (4 * x.significand - below) * x.quarter ∧ 1 ≤ below ∧ below ≤ 2 := by
    refine ⟨_, rfl, ?_, ?_⟩ <;> split <;> omega
  constructor
  · rw [hlow]
    exact Nat.mul_pos (by omega) x.quarter_pos
  · calc x.neighbourhood.low + x.quarter
        = (4 * x.significand - below + 1) * x.quarter := by rw [hlow, Nat.add_mul, Nat.one_mul]
      _ ≤ 4 * x.significand * x.quarter := Nat.mul_le_mul_right _ (by omega)

/-- A number has less than `10 ^ 17` quarters of its last place. -/
theorem neighbourhood_le (x : Binary64) : x.neighbourhood.value ≤ tenPow 17 * x.quarter := by
  have hlt := x.significand_lt
  have hten : 4 * twoPow 53 ≤ tenPow 17 := by decide
  rw [neighbourhood_value]
  exact Nat.mul_le_mul_right _ (by omega)

theorem neighbourhood_den (x : Binary64) :
    0 < x.neighbourhood.den ∧ x.neighbourhood.den ≤ twoPow 1076 := by
  refine ⟨twoPow_pos _, twoPow_le ?_⟩
  unfold unit
  omega

/-- The search for the decimal point starts below every number. -/
theorem reaches_least (h : x.magnitude ≠ 0) :
    Reaches x.neighbourhood.value x.neighbourhood.den (-331) := by
  have hpower : twoPow 1076 ≤ 4 * tenPow 331 := by decide +kernel
  have hvalue : 4 ≤ x.neighbourhood.value := by
    have := Nat.mul_le_mul (significand_pos h) x.quarter_pos
    rw [neighbourhood_value, Nat.mul_assoc]
    omega
  exact reaches_neg (k := 331) (Nat.le_trans (Nat.le_trans x.neighbourhood_den.2 hpower)
    (Nat.mul_le_mul_right _ hvalue))

end

/-! ## Grids -/

section

variable {n : Neighbourhood} {exponent : Int} {c : Nat}

theorem Neighbourhood.holds_of_lt {num den : Nat} (hlow : n.low * den < num * n.den)
    (hhigh : num * n.den < n.high * den) : n.holds num den = true := by
  unfold holds
  split <;> simp only [Bool.and_eq_true, decide_eq_true_eq] <;> omega

theorem Neighbourhood.low_le_of_holds {num den : Nat} (h : n.holds num den = true) :
    n.low * den ≤ num * n.den := by
  unfold holds at h
  split at h <;> simp only [Bool.and_eq_true, decide_eq_true_eq] at h <;> omega

/-- **What is found on a grid reads back.** -/
theorem holds_of_nearestOnGrid? (h : nearestOnGrid? n exponent = some c) :
    n.holds (c * (tenPower exponent).1) (tenPower exponent).2 = true := by
  unfold nearestOnGrid? at h
  simp only at h
  split at h
  · rename_i hboth
    obtain ⟨hlow, hhigh⟩ := Bool.and_eq_true_iff.1 hboth
    cases h
    split
    · exact hlow
    · split
      · exact hhigh
      · split
        · exact hlow
        · exact hhigh
  · split at h
    · rename_i hlow
      cases h
      exact hlow
    · split at h
      · rename_i hhigh
        cases h
        exact hhigh
      · cases h

theorem nearestOnGrid?_pos (hlow : 0 < n.low) (h : nearestOnGrid? n exponent = some c) : 0 < c := by
  refine Nat.pos_of_ne_zero fun hzero => ?_
  subst hzero
  have hle := n.low_le_of_holds (holds_of_nearestOnGrid? h)
  have hpos := Nat.mul_pos hlow (tenPower_pos exponent).2
  omega

/-- **On a fine grid something is found**: if the points lie closer together than the number and the
lower end, then the point below the number reads back. -/
theorem exists_nearestOnGrid? {step : Nat} (hden : 0 < n.den) (hlow : n.low + step ≤ n.value)
    (hhigh : n.value < n.high)
    (hfine : n.den * (tenPower exponent).1 ≤ step * (tenPower exponent).2) :
    ∃ c, nearestOnGrid? n exponent = some c := by
  obtain ⟨up, down, hpower⟩ : ∃ up down, tenPower exponent = (up, down) := ⟨_, _, rfl⟩
  obtain ⟨hup, hdown⟩ := tenPower_pos exponent
  rw [hpower] at hfine hup hdown
  simp only at hfine hup hdown
  -- the point below the number is as many steps of the grid as go into it
  have hholds : n.holds (n.value * down / (n.den * up) * up) down = true := by
    have hgrid := Nat.mul_pos hden hup
    have hdiv := Nat.div_add_mod (n.value * down) (n.den * up)
    have hmod := Nat.mod_lt (n.value * down) hgrid
    have hpoint : n.value * down / (n.den * up) * up * n.den =
        n.den * up * (n.value * down / (n.den * up)) := by
      rw [Nat.mul_assoc, Nat.mul_comm up, Nat.mul_comm]
    have hbelow := Nat.mul_le_mul_right down hlow
    rw [Nat.add_mul] at hbelow
    have habove := Nat.mul_lt_mul_of_pos_right hhigh hdown
    exact n.holds_of_lt (by omega) (by omega)
  unfold nearestOnGrid?
  simp only [hpower, hholds, Bool.true_and, if_true]
  split <;> exact ⟨_, rfl⟩

/-- The search from grid to grid stops where something is found. -/
theorem exists_firstGrid {fuel k : Nat} (h : ∃ c, nearestOnGrid? n (exponent - k) = some c)
    (hk : k < fuel) :
    ∃ c e, firstGrid n fuel exponent = (c, e) ∧ nearestOnGrid? n e = some c := by
  induction fuel generalizing exponent k with
  | zero => omega
  | succ fuel ih =>
    rw [firstGrid]
    cases hc : nearestOnGrid? n exponent with
    | some c => exact ⟨c, exponent, rfl, hc⟩
    | none =>
      cases k with
      | zero =>
        obtain ⟨c, hfound⟩ := h
        rw [Int.natCast_zero, Int.sub_zero, hc] at hfound
        cases hfound
      | succ k =>
        refine ih (k := k) ?_ (by omega)
        rwa [show exponent - 1 - (k : Int) = exponent - ((k + 1 : Nat) : Int) by omega]

end

/-! ## Digits -/

/-- Where a number has less than `10 ^ k` quarters of its last place, the grid `k` places below a
power of ten that it reaches is as fine as a quarter. -/
theorem quarter_of_reaches {x : Binary64} {e : Int} {k : Nat}
    (hk : x.neighbourhood.value ≤ tenPow k * x.quarter)
    (h : Reaches x.neighbourhood.value x.neighbourhood.den (e + k)) :
    x.neighbourhood.den * (tenPower e).1 ≤ x.quarter * (tenPower e).2 := by
  have hpos : 0 < tenPow k * (tenPower (e + k)).2 :=
    Nat.mul_pos (tenPow_pos k) (tenPower_pos (e + k)).2
  refine Nat.le_of_mul_le_mul_left ?_ hpos
  calc tenPow k * (tenPower (e + k)).2 * (x.neighbourhood.den * (tenPower e).1)
      = x.neighbourhood.den * (tenPow k * ((tenPower e).1 * (tenPower (e + k)).2)) := by ring
    _ = x.neighbourhood.den * (tenPower (e + k)).1 * (tenPower e).2 := by
        rw [← tenPower_shift, Nat.mul_assoc]
    _ ≤ x.neighbourhood.value * (tenPower (e + k)).2 * (tenPower e).2 :=
        Nat.mul_le_mul_right _ h
    _ ≤ tenPow k * x.quarter * (tenPower (e + k)).2 * (tenPower e).2 :=
        Nat.mul_le_mul_right _ (Nat.mul_le_mul_right _ hk)
    _ = tenPow k * (tenPower (e + k)).2 * (x.quarter * (tenPower e).2) := by ring

/-- **The search finds a decimal that is not zero.** -/
theorem firstGrid_pos {x : Binary64} (h : x.magnitude ≠ 0) :
    0 < (firstGrid x.neighbourhood 20
      (decimalPoint x.neighbourhood.value x.neighbourhood.den 700 (-330) - 1)).1 := by
  have hreach : Reaches x.neighbourhood.value x.neighbourhood.den
      (decimalPoint x.neighbourhood.value x.neighbourhood.den 700 (-330) - 1) :=
    reaches_decimalPoint (reaches_least h) 700
  generalize decimalPoint x.neighbourhood.value x.neighbourhood.den 700 (-330) = point at hreach ⊢
  obtain ⟨hpos, hlow⟩ := neighbourhood_low h
  -- 17 places below the first digit the points are closer together than a quarter of the last place
  have hfine : ∃ c, nearestOnGrid? x.neighbourhood (point - 1 - (17 : Nat)) = some c := by
    refine exists_nearestOnGrid? x.neighbourhood_den.1 hlow x.neighbourhood_high
      (quarter_of_reaches x.neighbourhood_le ?_)
    rwa [Int.sub_add_cancel]
  obtain ⟨c, e, hfirst, hc⟩ := exists_firstGrid hfine (show 17 < 20 by decide)
  rw [hfirst]
  exact nearestOnGrid?_pos hpos hc

/-- The decimal digits of a number that is not zero are not all zero. -/
theorem exists_digit_ne_zero {n : Nat} (h : 0 < n) : ∃ c ∈ Nat.toDigits 10 n, c ≠ '0' := by
  have hdigit : ∀ d : Fin 10, 0 < d.val → Nat.digitChar d ≠ '0' := by decide
  induction n using Nat.strongRecOn with
  | ind n ih =>
    by_cases hn : n < 10
    · rw [Nat.toDigits_of_lt_base hn]
      exact ⟨_, List.mem_singleton.2 rfl, hdigit ⟨n, hn⟩ h⟩
    · obtain ⟨c, hc, hne⟩ := ih (n / 10) (by omega) (by omega)
      rw [Nat.toDigits_of_base_le (by decide) (by omega)]
      exact ⟨c, List.mem_append_left _ hc, hne⟩

/-- Without the zeros at their end, digits are still digits if they are not all zero. -/
theorem isDecimal_dropZeros {digits : List Char} (hd : Numeral.IsDecimal digits)
    (h : ∃ c ∈ digits, c ≠ '0') : Numeral.IsDecimal (dropZeros digits) := by
  obtain ⟨c, hc, hne⟩ := h
  constructor
  · rw [dropZeros, Ne, List.reverse_eq_nil_iff, List.dropWhile_eq_nil_iff]
    intro hall
    exact hne (of_decide_eq_true (hall c (List.mem_reverse.2 hc)))
  · intro d hmem
    rw [dropZeros, List.mem_reverse] at hmem
    exact hd.2 d (List.mem_reverse.1 ((List.dropWhile_suffix _).subset hmem))

/-- **A number that is not zero has digits.** -/
theorem isDecimal_shortest {x : Binary64} (h : x.magnitude ≠ 0) :
    Numeral.IsDecimal x.shortest.1 :=
  isDecimal_dropZeros (Numeral.isDecimal_toDigits _) (exists_digit_ne_zero (firstGrid_pos h))

end Binary64

end MipsSource
