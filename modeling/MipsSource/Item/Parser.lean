import MipsSource.Directive.Parser
import MipsSource.Item.Basic

/-!
# Reading items

A label is looked for first, because a label starts like an instruction. The operands of an
instruction stay on its line: only spaces may stand between them.
-/

set_option autoImplicit false

namespace MipsSource.Parser

/-- Reads a label with its colon. -/
def label : Parser String :=
  scan fun text => (Lexeme.label? text).map fun (name, n) => (String.ofList name, n)

/-- Reads an instruction. -/
def instruction : Parser Instruction := do
  let start ← position
  let mnemonic ← identifier
  let operands ← withDefault (preceded spaces1 (sepBy1 comma placedOperand)) []
  let _ ← statementEnd
  return { mnemonic := mnemonic, operands := operands, col := start.col }

/-- Reads an item. -/
def item : Parser Item :=
  choice [.label <$> label, .directive <$> directive, .instruction <$> instruction]

end MipsSource.Parser
