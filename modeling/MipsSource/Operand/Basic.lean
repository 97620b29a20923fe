import MipsSource.Binary64.Basic
import MipsSource.Numeral.Bits
import MipsSource.Register.Basic

/-!
# Operands

What an instruction works on: registers, places in memory, and constants.
-/

set_option autoImplicit false

namespace MipsSource

/-- A reference to a label, so many bytes away from it. -/
structure Symbol where
  name : String
  offset : Int := 0
deriving DecidableEq, Repr

/-- What is added to the base register of a place in memory. -/
inductive Displacement where
  | immediate (value : Int)
  | symbol (symbol : Symbol)
deriving DecidableEq, Repr

/-- An operand of an instruction. -/
inductive Operand where
  | register (register : Register)
  | memory (base : Register) (displacement : Option Displacement)
  | immediate (value : Int)
  | symbol (symbol : Symbol)
  | character (value : String)
  | float (value : Binary64)
deriving DecidableEq, Repr

/-- The fields an immediate may fit, from the narrowest on. -/
inductive ImmediateWidth where
  | i16
  | u16
  | i32
  | u32
deriving DecidableEq, Repr

namespace ImmediateWidth

/-- The first field that an immediate fits; what fits no other is left to the last. -/
def ofValue (value : Int) : ImmediateWidth :=
  if Bits.isSigned 16 value then .i16
  else if Bits.isUnsigned 16 value then .u16
  else if Bits.isSigned 32 value then .i32
  else .u32

/-- The name of a field. -/
def name : ImmediateWidth → String
  | .i16 => "i16"
  | .u16 => "u16"
  | .i32 => "i32"
  | .u32 => "u32"

end ImmediateWidth

end MipsSource
