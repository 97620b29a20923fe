import MipsSource.Numeral.Bits

/-!
# Ranges of bit counts

The numbers of `n` bits with a sign and those without one both hold zero, so together they fill the
range between the least and the greatest of them:

* `isSigned_eq`, `isUnsigned_eq`, `fits_eq`: the three tests as intervals, by half of the numbers
  without a sign.
* `fits_mono`: what fits goes on fitting in more bits.
* `checked_fits_eq_range`: for a checked bit count, the numbers that fit are those of the range that
  is reported.
-/

set_option autoImplicit false

namespace MipsSource.Bits

variable {n : Nat}

/-! ## Intervals -/

/-- With one more bit there are twice as many numbers. -/
theorem twoPow_of_pos (hn : 0 < n) : twoPow n = 2 * twoPow (n - 1) := by
  obtain ⟨k, rfl⟩ : ∃ k, n = k + 1 := ⟨n - 1, by omega⟩
  rw [twoPow_succ, Nat.add_sub_cancel, Nat.mul_comm]

theorem isSigned_eq (n : Nat) (x : Int) :
    isSigned n x = decide (-(twoPow (n - 1) : Int) ≤ x ∧ x ≤ twoPow (n - 1) - 1) :=
  (Bool.decide_and _ _).symm

theorem isUnsigned_eq (hn : 0 < n) (x : Int) :
    isUnsigned n x = decide (0 ≤ x ∧ x ≤ 2 * (twoPow (n - 1) : Int) - 1) := by
  rw [isUnsigned, twoPow_of_pos hn, ← Bool.decide_and, decide_eq_decide]
  omega

theorem range_eq (hn : 0 < n) :
    range n = (-(twoPow (n - 1) : Int), 2 * (twoPow (n - 1) : Int) - 1) := by
  rw [range, twoPow_of_pos hn, Int.natCast_mul]
  rfl

theorem fits_eq (hn : 0 < n) (x : Int) :
    fits n x = decide (-(twoPow (n - 1) : Int) ≤ x ∧ x ≤ 2 * (twoPow (n - 1) : Int) - 1) := by
  have h := fits_iff hn x
  rw [range_eq hn] at h
  rw [Bool.eq_iff_iff, h, decide_eq_true_iff]

/-- **What fits goes on fitting in more bits.** -/
theorem fits_mono {m : Nat} (hn : 0 < n) (hnm : n ≤ m) {x : Int} (h : fits n x = true) :
    fits m x = true := by
  have hhalf : twoPow (n - 1) ≤ twoPow (m - 1) := twoPow_le (by omega)
  rw [fits_eq hn, decide_eq_true_iff] at h
  rw [fits_eq (by omega), decide_eq_true_iff]
  omega

/-! ## Checked bit counts -/

section
variable {test : Nat → Int → Bool} {n : Int}

theorem checked_of_pos (hn : 0 < n) (x : Int) : checked test n x = .ok (test n.toNat x) :=
  if_neg (by omega)

theorem checked_of_nonpos (hn : n ≤ 0) (x : Int) : checked test n x = .error .bitCount :=
  if_pos hn

theorem pos_of_checked {x : Int} {b : Bool} (h : checked test n x = .ok b) : 0 < n := by
  by_cases hn : n ≤ 0
  · rw [checked_of_nonpos hn] at h
    cases h
  · omega

end

/-- **The range that is reported is the range that is accepted.** For every positive bit count the
numbers with a sign and those without one are intervals that meet at zero, and the numbers that fit
either way are all between the least and the greatest of the range. What fits goes on fitting in
more bits; and for a bit count that is not positive no test and no range gives a result. -/
theorem checked_fits_eq_range :
    (∀ n : Int, 1 ≤ n → ∃ half : Int, half = twoPow (n - 1).toNat ∧ 0 < half ∧
        checkedRange n = .ok (-half, 2 * half - 1) ∧
        ∀ x : Int, checked isSigned n x = .ok (decide (-half ≤ x ∧ x ≤ half - 1)) ∧
          checked isUnsigned n x = .ok (decide (0 ≤ x ∧ x ≤ 2 * half - 1)) ∧
          checked fits n x = .ok (decide (-half ≤ x ∧ x ≤ 2 * half - 1))) ∧
      (∀ n m x : Int, n ≤ m → checked fits n x = .ok true → checked fits m x = .ok true) ∧
      ∀ n x : Int, n ≤ 0 →
        checked isSigned n x = .error .bitCount ∧ checked isUnsigned n x = .error .bitCount ∧
          checked fits n x = .error .bitCount ∧ checkedRange n = .error .noBits := by
  refine ⟨fun n hn => ?_, fun n m x hnm h => ?_, fun n x hn => ?_⟩
  · have hpos : 0 < n.toNat := by omega
    have hhalf : (n - 1).toNat = n.toNat - 1 := by omega
    refine ⟨_, rfl, Int.natCast_pos.2 (twoPow_pos _), ?_, fun x => ⟨?_, ?_, ?_⟩⟩
    · rw [checkedRange, if_neg (by omega), range_eq hpos, hhalf]
    · rw [checked_of_pos hn, isSigned_eq, hhalf]
    · rw [checked_of_pos hn, isUnsigned_eq hpos, hhalf]
    · rw [checked_of_pos hn, fits_eq hpos, hhalf]
  · have hn := pos_of_checked h
    rw [checked_of_pos hn] at h
    rw [checked_of_pos (by omega), fits_mono (by omega) (by omega) (Except.ok.inj h)]
  · exact ⟨checked_of_nonpos hn x, checked_of_nonpos hn x, checked_of_nonpos hn x, if_pos hn⟩

/-- A single bit: zero is the only number of both tests. -/
theorem checked_fits_eq_range_one :
    checkedRange 1 = .ok (-1, 1) ∧
      checked isSigned 1 0 = .ok true ∧ checked isUnsigned 1 0 = .ok true ∧
      checked isSigned 1 1 = .ok false ∧ checked isUnsigned 1 (-1) = .ok false ∧
      checked fits 1 1 = .ok true ∧ checked fits 1 (-1) = .ok true ∧
      checked fits 1 2 = .ok false ∧ checked fits 64 (-1) = .ok true ∧
      checked fits 0 0 = .error .bitCount ∧ checkedRange (-3) = .error .noBits := by
  obtain ⟨hrange, hmono, hnone⟩ := checked_fits_eq_range
  obtain ⟨half, rfl, -, hone, htests⟩ := hrange 1 (by decide)
  have hfits : checked fits 1 (-1) = .ok true := (htests (-1)).2.2
  exact ⟨hone, (htests 0).1, (htests 0).2.1, (htests 1).1, (htests (-1)).2.1, (htests 1).2.2, hfits,
    (htests 2).2.2, hmono 1 64 (-1) (by decide) hfits, (hnone 0 0 (by decide)).2.2.1,
    (hnone (-3) 0 (by decide)).2.2.2⟩

end MipsSource.Bits
