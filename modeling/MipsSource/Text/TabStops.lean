import MipsSource.Fault

/-!
# Tab stops

Tabs become spaces up to the next tab stop, so that a column counted in characters is the column
an editor shows. Columns restart after a newline and after a carriage return.

* `expandTabsFrom_no_tab`: no tab is left.
-/

set_option autoImplicit false

namespace MipsSource.Text

/-- Distance between tab stops if none is given. -/
def defaultTabWidth : Int := 8

/-- The tab widths the expansion takes: the signed 32-bit numbers. -/
def tabWidthOk (width : Int) : Bool :=
  -2147483648 ≤ width && width ≤ 2147483647

/-- Expands the tabs of a text that starts `column` characters into its line; a width of zero
deletes them. -/
def expandTabsFrom (width : Nat) : Nat → List Char → List Char
  | _, [] => []
  | column, c :: rest =>
    if c = '\t' then
      let gap := if width = 0 then 0 else width - column % width
      List.replicate gap ' ' ++ expandTabsFrom width (column + gap) rest
    else if c = '\n' ∨ c = '\r' then c :: expandTabsFrom width 0 rest
    else c :: expandTabsFrom width (column + 1) rest

/-- Expands the tabs of a text; a width that is not positive deletes them. -/
def expandTabs (width : Int) (text : List Char) : Except Fault (List Char) :=
  if tabWidthOk width then .ok (expandTabsFrom width.toNat 0 text) else .error .tabWidthOverflow

theorem expandTabsFrom_no_tab (width column : Nat) (text : List Char) :
    '\t' ∉ expandTabsFrom width column text := by
  induction text generalizing column with
  | nil => simp [expandTabsFrom]
  | cons c rest ih =>
    rw [expandTabsFrom]
    split
    · simp [ih]
    · split
      · simp_all [Ne.symm]
      · simp_all [Ne.symm, eq_comm]

end MipsSource.Text
