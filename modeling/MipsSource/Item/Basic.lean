import MipsSource.Directive.Basic

/-!
# Items

The statements of a source text: labels, directives and instructions.
-/

set_option autoImplicit false

namespace MipsSource

/-- An instruction: its mnemonic as written, the operands with their columns, and the column of
the mnemonic. -/
structure Instruction where
  mnemonic : String
  operands : List (Operand × Int) := []
  col : Int
deriving DecidableEq, Repr

/-- A statement. -/
inductive Item where
  | label (name : String)
  | directive (directive : Directive)
  | instruction (instruction : Instruction)
deriving DecidableEq, Repr

namespace Item

/-- The name of the kind of an item. -/
def kind : Item → String
  | .label _ => "label"
  | .directive _ => "directive"
  | .instruction _ => "instruction"

end Item

end MipsSource
