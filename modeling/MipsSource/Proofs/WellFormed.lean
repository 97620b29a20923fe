import MipsSource.Item.Basic
import MipsSource.Proofs.Lexemes

/-!
# Well-formed items

`Item.WellFormed` says what later phases may rely on: names are identifiers, numbers lie in the
ranges of their fields, characters are single, and a directive has the data its name asks for. The
ranges are given here as numbers, apart from the tests that the parsers make.

* `ImmediateWidth.ofValue_isFirst`: the width of an immediate is the first that it fits.
* `Item.WellFormed.immediates`: every immediate of a well-formed item has 32 bits.
-/

set_option autoImplicit false

namespace MipsSource

/-! ## Well-formedness -/

/-- A name that is an identifier. -/
def IsName (name : String) : Prop :=
  Lexeme.IsIdentifier name.toList

instance : DecidablePred IsName := fun name =>
  inferInstanceAs (Decidable (Lexeme.IsIdentifier name.toList))

namespace ImmediateWidth

/-- The least and the greatest number that fits a field. -/
def bounds : ImmediateWidth → Int × Int
  | .i16 => (-32768, 32767)
  | .u16 => (0, 65535)
  | .i32 => (-2147483648, 2147483647)
  | .u32 => (0, 4294967295)

/-- The fields in the order in which they are tried. -/
def rank : ImmediateWidth → Nat
  | .i16 => 0
  | .u16 => 1
  | .i32 => 2
  | .u32 => 3

/-- The number fits the field. -/
def Holds (w : ImmediateWidth) (value : Int) : Prop :=
  w.bounds.1 ≤ value ∧ value ≤ w.bounds.2

/-- The number fits the field and none that is tried before. -/
def IsFirst (w : ImmediateWidth) (value : Int) : Prop :=
  w.Holds value ∧ ∀ earlier : ImmediateWidth, earlier.rank < w.rank → ¬ earlier.Holds value

end ImmediateWidth

/-- A number of 32 bits, with or without a sign. -/
def IsImmediate (value : Int) : Prop :=
  -2147483648 ≤ value ∧ value ≤ 4294967295

instance : DecidablePred IsImmediate := fun _ => inferInstanceAs (Decidable (_ ∧ _))

namespace Displacement

/-- A number of 32 bits, or a reference by an identifier. -/
def WellFormed : Displacement → Prop
  | .immediate value => IsImmediate value
  | .symbol s => IsName s.name

instance : DecidablePred WellFormed
  | .immediate value => inferInstanceAs (Decidable (IsImmediate value))
  | .symbol s => inferInstanceAs (Decidable (IsName s.name))

end Displacement

namespace Operand

/-- Numbers have 32 bits, names are identifiers, and a character is a single one. -/
def WellFormed : Operand → Prop
  | .register _ => True
  | .memory _ displacement => ∀ d ∈ displacement, d.WellFormed
  | .immediate value => IsImmediate value
  | .symbol s => IsName s.name
  | .character value => value.toList.length = 1
  | .float _ => True

instance : DecidablePred WellFormed
  | .register _ => inferInstanceAs (Decidable True)
  | .memory _ displacement => inferInstanceAs (Decidable (∀ d ∈ displacement, d.WellFormed))
  | .immediate value => inferInstanceAs (Decidable (IsImmediate value))
  | .symbol s => inferInstanceAs (Decidable (IsName s.name))
  | .character value => inferInstanceAs (Decidable (value.toList.length = 1))
  | .float _ => inferInstanceAs (Decidable True)

/-- The immediates of an operand, alone or as a displacement. -/
def immediates : Operand → List Int
  | .immediate value => [value]
  | .memory _ (some (.immediate value)) => [value]
  | _ => []

end Operand

namespace Datum

/-- An element of a list of integers from `lo` to `hi`: such an integer, also repeated, or a
reference to a label where `symbols` allows it. -/
def IsElement (lo hi : Int) (symbols : Bool) : Datum → Prop
  | .int value => lo ≤ value ∧ value ≤ hi
  | .repeated value count => (lo ≤ value ∧ value ≤ hi) ∧ 1 ≤ count ∧ count ≤ 2147483647
  | .symbol s => symbols = true ∧ IsName s.name
  | .float _ => False
  | .text _ => False

instance (lo hi : Int) (symbols : Bool) : DecidablePred (IsElement lo hi symbols)
  | .int value => inferInstanceAs (Decidable (lo ≤ value ∧ value ≤ hi))
  | .repeated value count =>
    inferInstanceAs (Decidable ((lo ≤ value ∧ value ≤ hi) ∧ 1 ≤ count ∧ count ≤ 2147483647))
  | .symbol s => inferInstanceAs (Decidable (symbols = true ∧ IsName s.name))
  | .float _ => inferInstanceAs (Decidable False)
  | .text _ => inferInstanceAs (Decidable False)

end Datum

namespace Directive

/-- The directives that take a list of integers: least and greatest integer, and whether references
to labels may stand among them. -/
def integerLists : List (String × Int × Int × Bool) :=
  [(".byte", -128, 255, false), (".half", -32768, 65535, false),
   (".word", -2147483648, 4294967295, true)]

/-- A known directive with the data its name asks for. -/
inductive WellFormed : Directive → Prop
  | plain {name : String} :
      name ∈ [".text", ".data", ".ktext", ".kdata"] → WellFormed { name := name, args := [] }
  | string {name : String} (text : String) :
      name ∈ [".ascii", ".asciiz"] → WellFormed { name := name, args := [.text text] }
  | integers {name : String} {lo hi : Int} {symbols : Bool} {args : List Datum} :
      (name, lo, hi, symbols) ∈ integerLists → args ≠ [] →
      (∀ a ∈ args, a.IsElement lo hi symbols) → WellFormed { name := name, args := args }
  | floats {name : String} (values : List Binary64) :
      name ∈ [".float", ".double"] → values ≠ [] →
      WellFormed { name := name, args := values.map .float }
  | count {name : String} {n : Int} :
      name ∈ [".align", ".space"] → 0 ≤ n → n ≤ 2147483647 →
      WellFormed { name := name, args := [.int n] }
  | globl {symbol : String} :
      IsName symbol → WellFormed { name := ".globl", args := [.text symbol] }

end Directive

namespace Item

/-- An item that later phases may rely on. -/
def WellFormed : Item → Prop
  | .label name => IsName name
  | .directive d => d.WellFormed
  | .instruction i => IsName i.mnemonic ∧ ∀ placed ∈ i.operands, placed.1.WellFormed

/-- The immediates of an item, alone or as displacements. -/
def immediates : Item → List Int
  | .instruction i => i.operands.flatMap fun placed => placed.1.immediates
  | _ => []

end Item

/-! ## Ranges -/

theorem fits_iff_isImmediate (value : Int) : Bits.fits 32 value = true ↔ IsImmediate value :=
  Bits.fits_iff (by decide) value

/-- **The first field of a number of 32 bits** is one it fits, and the first such. -/
theorem ImmediateWidth.ofValue_isFirst {value : Int} (h : IsImmediate value) :
    (ofValue value).IsFirst value := by
  obtain ⟨hlo, hhi⟩ := h
  have h15 : (twoPow 15 : Int) = 32768 := rfl
  have h16 : (twoPow 16 : Int) = 65536 := rfl
  have h31 : (twoPow 31 : Int) = 2147483648 := rfl
  unfold ofValue
  simp only [Bits.isSigned, Bits.isUnsigned, Bool.and_eq_true, decide_eq_true_eq, Nat.reduceSub,
    h15, h16, h31]
  -- each branch knows which tests failed before it
  repeat' split
  all_goals
    refine ⟨by simp only [Holds, bounds]; omega, fun earlier hr => ?_⟩
    cases earlier <;> simp only [rank] at hr <;> simp only [Holds, bounds] <;> omega

/-! ## Widths -/

theorem Operand.WellFormed.immediates {o : Operand} (h : o.WellFormed) :
    ∀ value ∈ o.immediates, IsImmediate value := by
  intro value hv
  cases o with
  | immediate v =>
    simp only [Operand.immediates, List.mem_singleton] at hv
    rw [hv]
    exact h
  | memory base displacement =>
    cases displacement with
    | none => cases hv
    | some d =>
      cases d with
      | immediate v =>
        simp only [Operand.immediates, List.mem_singleton] at hv
        rw [hv]
        exact h _ rfl
      | symbol s => cases hv
  | register r => cases hv
  | symbol s => cases hv
  | character v => cases hv
  | float v => cases hv

theorem Item.WellFormed.immediates {i : Item} (h : i.WellFormed) :
    ∀ value ∈ i.immediates, IsImmediate value := by
  intro value hv
  cases i with
  | label name => cases hv
  | directive d => cases hv
  | instruction ins =>
    obtain ⟨placed, hp, hv⟩ := List.mem_flatMap.1 hv
    exact (h.2 placed hp).immediates value hv

end MipsSource
