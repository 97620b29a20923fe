import MipsSource.Operand.Basic
import MipsSource.Parser.Literal
import MipsSource.Register.Resolve

/-!
# Reading operands

A dollar sign always starts a register, and a numeral always an immediate: if they turn out
wrong, reading ends with an error at that place. Everything else that does not match leaves the
choice to the next kind of operand.
-/

set_option autoImplicit false

namespace MipsSource.Parser

/-- Reads a register. -/
def register : Parser Register := do
  let start ← position
  let name ← scan fun text => (Lexeme.registerName? text).map fun name => (name, name.length + 1)
  match Register.resolve name with
  | .ok r => return r
  | .error fault => fail (fault.locate (some start.line) (some start.col) none)

/-- Ends reading with the error that a number at `start` does not fit the field `what`. -/
def failRange {α : Type} (start : Cursor) (value : Int) (what : String) (range : Int × Int) :
    Parser α :=
  fail (.ofCauseAt (.valueRange value what range.1 range.2) start.line start.col)

/-- Reads an integer of 32 bits, with or without a sign. -/
def immediate : Parser Int := do
  let (start, value) ← placedInteger
  if Bits.fits 32 value then return value
  else failRange start value "un inmediato de 32 bits" (Bits.range 32)

/-- Reads a reference to a label, with an optional offset. -/
def symbol : Parser Symbol := do
  let name ← identifier
  match ← optional (scan Lexeme.symbolOffset?) with
  | none => return { name := name }
  | some (mark, numeral) =>
    let distance ← ofExcept (Numeral.readLiteral numeral)
    return { name := name, offset := if mark = '-' then -distance else distance }

/-- Reads what stands before the parenthesis of a place in memory. -/
def displacement : Parser Displacement :=
  choice [.immediate <$> immediate, .symbol <$> symbol]

/-- Reads a place in memory: a base register in parentheses, after an optional displacement. -/
def memory : Parser Operand := do
  let offset ← optional displacement
  let _ ← tag "("
  let _ ← spaces
  let base ← register
  let _ ← spaces
  let _ ← tag ")"
  return .memory base offset

/-- The kinds of operands other than places in memory. -/
def simpleOperands : List (Parser Operand) :=
  [.register <$> register, .float <$> float, .immediate <$> immediate, .character <$> character,
    .symbol <$> symbol]

/-- Reads an operand. -/
def operand : Parser Operand :=
  choice (memory :: simpleOperands)

/-- Reads an operand, and tells its column. -/
def placedOperand : Parser (Operand × Int) := do
  let start ← position
  let value ← operand
  return (value, start.col)

end MipsSource.Parser

namespace MipsSource.Operand

/-- Reads a text that is a single operand. -/
def ofText (text : List Char) : Except Fault Operand :=
  let invalid : Fault :=
    .ofCauseAt (.general ("Argumento inválido: '" ++ String.ofList text ++ "'")) 1 1
  match Parser.operand (.start text) with
  | .matched value after => if after.atEnd then .ok value else .error invalid
  | .unmatched => .error invalid
  | .failed fault => .error fault

end MipsSource.Operand
