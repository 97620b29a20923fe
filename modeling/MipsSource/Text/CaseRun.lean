/-!
# Runs of letters

Letters that lie in a row, or every other letter of a row, and whose other case lies in a row of the
same shape: the lines of the tables of small and capital letters.
-/

set_option autoImplicit false

namespace MipsSource.Text

/-- A run of letters, `step` code points apart, whose other case lies equally far away. -/
structure CaseRun where
  first : Nat
  last : Nat
  step : Nat
  /-- The other case of `first`. -/
  image : Nat

/-- The other case of a code point that belongs to the run. -/
def CaseRun.image? (run : CaseRun) (code : Nat) : Option Nat :=
  if run.first ≤ code && code ≤ run.last && (code - run.first) % run.step == 0 then
    some (run.image + (code - run.first))
  else none

end MipsSource.Text
