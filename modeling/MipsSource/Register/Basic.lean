/-!
# Registers

The 32 general registers, their conventional names, and the families whose members are told apart
by a number (`$t0` to `$t9`).

* `ofNumber?_number`, `ofName?_name`: a register is found again by its number and by its name.
-/

set_option autoImplicit false

namespace MipsSource

/-- A general register, by its number. -/
structure Register where
  number : Fin 32
deriving DecidableEq, Repr

namespace Register

/-- The conventional names in small letters, by register number. -/
def names : Vector String 32 :=
  #v["zero", "at", "v0", "v1", "a0", "a1", "a2", "a3", "t0", "t1", "t2", "t3", "t4", "t5", "t6",
     "t7", "s0", "s1", "s2", "s3", "s4", "s5", "s6", "s7", "t8", "t9", "k0", "k1", "gp", "sp",
     "fp", "ra"]

/-- The conventional name in small letters. -/
def name (r : Register) : String :=
  names.get r.number

/-- The conventional name in capitals. -/
def capitalName (r : Register) : String :=
  String.ofList (r.name.toList.map Char.toUpper)

/-- All registers, by number. -/
def all : List Register :=
  (List.finRange 32).map Register.mk

/-- The register with this number. -/
def ofNumber? (n : Int) : Option Register :=
  if h : 0 ≤ n ∧ n < 32 then some ⟨⟨n.toNat, by omega⟩⟩ else none

/-- The register with this name in small letters. -/
def ofName? (name : String) : Option Register :=
  all.find? fun r => r.name == name

theorem mem_all (r : Register) : r ∈ all := by
  simp [all]

theorem ofNumber?_number (r : Register) : ofNumber? r.number.val = some r := by
  have h : (0 : Int) ≤ r.number.val ∧ (r.number.val : Int) < 32 := by omega
  simp [ofNumber?, h]

theorem ofName?_name (r : Register) : ofName? r.name = some r := by
  obtain ⟨i⟩ := r
  revert i
  decide +kernel

/-! ## Families -/

/-- The least and the greatest number in a family of registers. -/
structure FamilyRange where
  lo : Nat
  hi : Nat
deriving DecidableEq, Repr

/-- The families, by their letter. -/
def families : List (String × FamilyRange) :=
  [("v", ⟨0, 1⟩), ("a", ⟨0, 3⟩), ("t", ⟨0, 9⟩), ("s", ⟨0, 7⟩), ("k", ⟨0, 1⟩)]

/-- The numbers of the family with this letter. -/
def familyRange? (letter : String) : Option FamilyRange :=
  families.lookup letter

end Register

end MipsSource
