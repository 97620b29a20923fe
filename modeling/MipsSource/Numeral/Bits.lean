import MipsSource.Fault

/-!
# Numbers of n bits

The ranges of n-bit numbers read with a sign, without one, or either way.

* `fits_iff`: the numbers that fit either way are exactly those of `range`.
-/

set_option autoImplicit false

namespace MipsSource.Bits

/-- Is the number one of `n` bits without a sign? -/
def isUnsigned (n : Nat) (x : Int) : Bool :=
  0 ≤ x && x < twoPow n

/-- Is the number one of `n` bits with a sign? -/
def isSigned (n : Nat) (x : Int) : Bool :=
  -(twoPow (n - 1) : Int) ≤ x && x ≤ (twoPow (n - 1) : Int) - 1

/-- Is the number one of `n` bits, with or without a sign? -/
def fits (n : Nat) (x : Int) : Bool :=
  isSigned n x || isUnsigned n x

/-- The least and the greatest number of `n` bits, with or without a sign. -/
def range (n : Nat) : Int × Int :=
  (-(twoPow (n - 1) : Int), (twoPow n : Int) - 1)

/-- The numbers that fit either way are exactly those of the range. -/
theorem fits_iff {n : Nat} (hn : 0 < n) (x : Int) :
    fits n x = true ↔ (range n).1 ≤ x ∧ x ≤ (range n).2 := by
  obtain ⟨k, rfl⟩ : ∃ k, n = k + 1 := ⟨n - 1, by omega⟩
  have hk := twoPow_pos k
  have hs := twoPow_succ k
  simp only [fits, isSigned, isUnsigned, range, Nat.add_sub_cancel, Bool.or_eq_true,
    Bool.and_eq_true, decide_eq_true_eq]
  omega

/-! ## Checked bit counts -/

/-- Applies a test for `n` bits to a bit count that has to be positive. -/
def checked (test : Nat → Int → Bool) (n x : Int) : Except Fault Bool :=
  if n ≤ 0 then .error .bitCount else .ok (test n.toNat x)

/-- The range of the numbers of `n` bits, for a bit count that has to be positive. -/
def checkedRange (n : Int) : Except Fault (Int × Int) :=
  if n ≤ 0 then .error .noBits else .ok (range n.toNat)

end MipsSource.Bits
