import MipsSource.Fault

/-!
# Double-precision numbers

IEEE 754 binary64 numbers as bit patterns, and rounding to them: to the nearest, and halfway to the
one with the even significand. A finite magnitude is `significand · 2 ^ unit`.

* `roundDiv_le`, `le_roundDiv`: a rounded quotient is off by at most a half.
-/

set_option autoImplicit false

namespace MipsSource

/-- A double-precision number, by its bits. -/
structure Binary64 where
  bits : UInt64
deriving DecidableEq, Repr

namespace Binary64

/-- Is the sign bit set? -/
def isNegative (x : Binary64) : Bool :=
  twoPow 63 ≤ x.bits.toNat

/-- The bits without the sign. -/
def magnitude (x : Binary64) : Nat :=
  x.bits.toNat % twoPow 63

/-- The bits of infinity; larger magnitudes are no numbers. -/
def infinityBits : Nat := 2047 * twoPow 52

/-- A number from its sign and its other bits. -/
def ofMagnitude (negative : Bool) (magnitude : Nat) : Binary64 :=
  ⟨UInt64.ofNat (if negative then twoPow 63 + magnitude else magnitude)⟩

/-- The exponent of the least bit of the significand. -/
def unit (x : Binary64) : Int :=
  max (x.magnitude / twoPow 52 : Nat) 1 - 1075

/-- The significand of a finite number. -/
def significand (x : Binary64) : Nat :=
  if x.magnitude / twoPow 52 = 0 then x.magnitude else x.magnitude % twoPow 52 + twoPow 52

/-! ## Rounding -/

/-- The integer nearest to `num / den`; halfway, the even one. -/
def roundDiv (num den : Nat) : Nat :=
  let low := num / den
  let twice := 2 * (num % den)
  if twice < den then low
  else if den < twice then low + 1
  else if low % 2 = 0 then low
  else low + 1

theorem roundDiv_le (num den : Nat) : 2 * (roundDiv num den * den) ≤ 2 * num + den := by
  have h := Nat.div_add_mod num den
  rw [Nat.mul_comm] at h
  simp only [roundDiv]
  split
  · omega
  split
  · rw [Nat.add_mul]; omega
  split
  · omega
  · rw [Nat.add_mul]; omega

theorem le_roundDiv (num : Nat) {den : Nat} (hd : 0 < den) :
    2 * num ≤ 2 * (roundDiv num den * den) + den := by
  have h := Nat.div_add_mod num den
  have hm := Nat.mod_lt num hd
  rw [Nat.mul_comm] at h
  simp only [roundDiv]
  split
  · omega
  split
  · rw [Nat.add_mul]; omega
  split
  · omega
  · rw [Nat.add_mul]; omega

/-- The `e` with `2 ^ e ≤ num / den < 2 ^ (e + 1)`. -/
def ratioLog2 (num den : Nat) : Int :=
  let guess : Int := (num.log2 : Int) - den.log2
  let reached :=
    if 0 ≤ guess then den * twoPow guess.toNat ≤ num else den ≤ num * twoPow (-guess).toNat
  if reached then guess else guess - 1

/-- The bits of the number nearest to `num / den`, which is infinity where no finite number is. -/
def roundRatio (num den : Nat) : Nat :=
  if num = 0 then 0
  else
    let unit := max (ratioLog2 num den - 52) (-1074)
    let significand :=
      if 0 ≤ unit then roundDiv num (den * twoPow unit.toNat)
      else roundDiv (num * twoPow (-unit).toNat) den
    min ((unit + 1074).toNat * twoPow 52 + significand) infinityBits

/-- The least integer that rounds to no finite number. -/
def overflowBound : Nat := twoPow 1024 - twoPow 970

/-- The number nearest to an integer. -/
def ofInt (i : Int) : Except Fault Binary64 :=
  if i.natAbs < overflowBound then .ok (ofMagnitude (i < 0) (roundRatio i.natAbs 1))
  else .error .floatOverflow

/-! ## Decimal numbers -/

/-- The decimal number `± coefficient · 10 ^ exponent`. -/
structure Decimal where
  negative : Bool
  coefficient : Nat
  exponent : Int
deriving DecidableEq, Repr

/-- The bits of the number nearest to `coefficient · 10 ^ exponent`. Exponents that leave no doubt
are settled without computing the power. -/
def roundDecimal (coefficient : Nat) (exponent : Int) : Nat :=
  if coefficient = 0 then 0
  else if 0 ≤ exponent then
    if 309 ≤ exponent then infinityBits
    else roundRatio (coefficient * tenPow exponent.toNat) 1
  else if (coefficient.log2 : Int) + 1081 ≤ 3 * -exponent then 0
  else roundRatio coefficient (tenPow (-exponent).toNat)

/-- The number nearest to a decimal number: infinity if it is too large. -/
def ofDecimal (d : Decimal) : Binary64 :=
  ofMagnitude d.negative (roundDecimal d.coefficient d.exponent)

end Binary64

end MipsSource
