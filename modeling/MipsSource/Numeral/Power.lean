/-!
# Powers

The powers of two and of ten that bit patterns and decimal numerals are counted in.

* `twoPow_succ`: each power of two from the one before.
* `tenPow_add`: powers of ten are multiplied by adding up the exponents.
* `twoPow_le`, `tenPow_le`: the powers grow.
-/

set_option autoImplicit false

namespace MipsSource

/-- The `n`-th power of two. -/
def twoPow (n : Nat) : Nat :=
  Nat.pow 2 n

/-- The `n`-th power of ten. -/
def tenPow (n : Nat) : Nat :=
  Nat.pow 10 n

@[simp]
theorem twoPow_zero : twoPow 0 = 1 := rfl

theorem twoPow_succ (n : Nat) : twoPow (n + 1) = twoPow n * 2 := rfl

theorem twoPow_pos (n : Nat) : 0 < twoPow n :=
  Nat.pow_pos (by decide)

theorem twoPow_le {m n : Nat} (h : m ≤ n) : twoPow m ≤ twoPow n :=
  Nat.pow_le_pow_right (by decide) h

@[simp]
theorem tenPow_zero : tenPow 0 = 1 := rfl

theorem tenPow_pos (n : Nat) : 0 < tenPow n :=
  Nat.pow_pos (by decide)

theorem tenPow_le {m n : Nat} (h : m ≤ n) : tenPow m ≤ tenPow n :=
  Nat.pow_le_pow_right (by decide) h

theorem tenPow_add (m n : Nat) : tenPow (m + n) = tenPow m * tenPow n :=
  Nat.pow_add 10 m n

end MipsSource
