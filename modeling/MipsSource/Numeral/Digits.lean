import MipsSource.Numeral.Power

/-!
# Numbers as decimal text

A number is written in decimal only up to `maxDigits` digits, and a decimal numeral with more
digits is not read.

* `isShowable_iff`: the numbers that are written are those with at most `maxDigits` digits.
-/

set_option autoImplicit false

namespace MipsSource.Numeral

/-- The most digits of a decimal numeral that is read or written. -/
def maxDigits : Nat := 4300

/-- The decimal text of a number. -/
def text (i : Int) : String :=
  if i < 0 then "-" ++ Nat.repr i.natAbs else Nat.repr i.natAbs

/-- Has the number at most `maxDigits` digits? -/
def isShowable (i : Int) : Bool :=
  i.natAbs < tenPow maxDigits

theorem length_toDigits_le_iff {k : Nat} (hk : 0 < k) (n : Nat) :
    (Nat.toDigits 10 n).length ≤ k ↔ n < tenPow k :=
  Nat.length_toDigits_le_iff (by decide) hk

/-- The numbers that are written are those with at most `maxDigits` digits. -/
theorem isShowable_iff (i : Int) :
    isShowable i = true ↔ (Nat.toDigits 10 i.natAbs).length ≤ maxDigits := by
  rw [isShowable, decide_eq_true_eq, length_toDigits_le_iff (by decide)]

end MipsSource.Numeral
