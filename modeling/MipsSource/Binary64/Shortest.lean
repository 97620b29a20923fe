import MipsSource.Binary64.Basic

/-!
# Shortest decimal text of a double

The fewest digits that read back as the same number; of several such decimals the nearest, and
halfway between two the one with the even last digit. Numbers from `1e-4` up to `1e16` are written
positionally, with at least one digit after the point; others with an exponent.
-/

set_option autoImplicit false

namespace MipsSource.Binary64

/-! ## Digits -/

/-- The decimals that read back as a number: `low` to `high`, in units of `1 / den`, where `value`
is the number itself. The ends belong to it if `closed`. -/
structure Neighbourhood where
  low : Nat
  value : Nat
  high : Nat
  den : Nat
  closed : Bool

/-- The decimals that read back as a finite number that is not zero. Its lower neighbour is nearer
where the significand is the least of its binade. -/
def neighbourhood (x : Binary64) : Neighbourhood :=
  let m := x.significand
  let below := if m = twoPow 52 ∧ -1074 < x.unit then 1 else 2
  let scale := x.unit - 2
  let up := twoPow scale.toNat
  { low := (4 * m - below) * up
    value := 4 * m * up
    high := (4 * m + 2) * up
    den := twoPow (-scale).toNat
    closed := m % 2 = 0 }

/-- Is the decimal `num / den` in the neighbourhood? -/
def Neighbourhood.holds (n : Neighbourhood) (num den : Nat) : Bool :=
  if n.closed then n.low * den ≤ num * n.den && num * n.den ≤ n.high * den
  else n.low * den < num * n.den && num * n.den < n.high * den

/-- The power `10 ^ e` as a fraction. -/
def tenPower (e : Int) : Nat × Nat :=
  (tenPow e.toNat, tenPow (-e).toNat)

/-- The least `k` with `num / den < 10 ^ k`, looked for upward from `start`. -/
def decimalPoint (num den : Nat) : Nat → Int → Int
  | 0, start => start
  | fuel + 1, start =>
    let (up, down) := tenPower start
    if num * down < den * up then start else decimalPoint num den fuel (start + 1)

/-- The decimal `coefficient · 10 ^ exponent` nearest to the value on the grid `10 ^ exponent`, if
one of the grid's two points around the value reads back. -/
def nearestOnGrid? (n : Neighbourhood) (exponent : Int) : Option Nat :=
  let (up, down) := tenPower exponent
  let num := n.value * down
  let den := n.den * up
  let low := num / den
  let twice := 2 * (num % den)
  let lowHolds := n.holds (low * up) down
  let highHolds := n.holds ((low + 1) * up) down
  if lowHolds && highHolds then
    some (if twice < den then low else if den < twice then low + 1
      else if low % 2 = 0 then low else low + 1)
  else if lowHolds then some low
  else if highHolds then some (low + 1)
  else none

/-- The first grid with a decimal that reads back, from `10 ^ exponent` down. -/
def firstGrid (n : Neighbourhood) : Nat → Int → Nat × Int
  | 0, exponent => (0, exponent)
  | fuel + 1, exponent =>
    match nearestOnGrid? n exponent with
    | some coefficient => (coefficient, exponent)
    | none => firstGrid n fuel (exponent - 1)

/-- Digits without the zeros at their end. -/
def dropZeros (digits : List Char) : List Char :=
  (digits.reverse.dropWhile (· = '0')).reverse

/-- The shortest digits of a finite number that is not zero, and the place of the decimal point
counted from their left end. -/
def shortest (x : Binary64) : List Char × Int :=
  let n := x.neighbourhood
  let point := decimalPoint n.value n.den 700 (-330)
  let (coefficient, exponent) := firstGrid n 20 (point - 1)
  let digits := Nat.toDigits 10 coefficient
  (dropZeros digits, exponent + digits.length)

/-! ## Layout -/

/-- How digits are laid out as text. -/
structure Layout where
  /-- The point is written positionally if it stands after this place ... -/
  leastPoint : Int
  /-- ... and not after this one. -/
  greatestPoint : Int
  /-- The least number of digits of an exponent. -/
  exponentWidth : Nat

/-- Positional from `0.0001` to below `1e16`; exponents have at least two digits. -/
def layout : Layout := ⟨-3, 16, 2⟩

/-- Digits with the point at its place, and at least one digit on each side of it. -/
def positional (digits : List Char) (point : Int) : List Char :=
  if point ≤ 0 then '0' :: '.' :: (List.replicate (-point).toNat '0' ++ digits)
  else
    let whole := digits.take point.toNat
    let fraction := digits.drop point.toNat
    whole ++ List.replicate (point.toNat - whole.length) '0' ++
      '.' :: (if fraction = [] then ['0'] else fraction)

/-- Digits with one of them before the point, and an exponent; without others the point is not
written. -/
def scientific (width : Nat) (digits : List Char) (point : Int) : List Char :=
  let exponent := point - 1
  let shown := Nat.toDigits 10 exponent.natAbs
  let mantissa := match digits with
    | first :: second :: rest => first :: '.' :: second :: rest
    | short => short
  mantissa ++ 'e' :: (if exponent < 0 then '-' else '+') ::
    (List.replicate (width - shown.length) '0' ++ shown)

/-- The text of the magnitude of a number. -/
def magnitudeText (l : Layout) (x : Binary64) : List Char :=
  if x.magnitude = infinityBits then ['i', 'n', 'f']
  else if x.magnitude = 0 then ['0', '.', '0']
  else
    let (digits, point) := x.shortest
    if l.leastPoint ≤ point ∧ point ≤ l.greatestPoint then positional digits point
    else scientific l.exponentWidth digits point

/-- The text of a number. -/
def text (x : Binary64) : String :=
  if infinityBits < x.magnitude then "nan"
  else
    let shown := magnitudeText layout x
    String.ofList (if x.isNegative then '-' :: shown else shown)

end MipsSource.Binary64
