import MipsSource.Directive.Basic
import MipsSource.Operand.Parser

/-!
# Reading directives

A directive whose name is not known, or whose data do not have the form its name asks for, does
not match. A number of the right form that is out of range ends reading with an error at that
number.
-/

set_option autoImplicit false

namespace MipsSource.Parser

/-- Reads the count of a repetition, after its colon, and tells where it stands. -/
def repetition : Parser (Cursor × Int) :=
  preceded (sequence [spaces, tag ":", spaces]) placedInteger

/-- Reads an integer of so many bits, and how often it is repeated. -/
def integerDatum (what : String) (bits : Nat) : Parser Datum := do
  let (start, value) ← placedInteger
  if Bits.fits bits value then
    match ← optional repetition with
    | none => return .int value
    | some (countStart, count) =>
      if 1 ≤ count ∧ count ≤ Directive.maxCount then return .repeated value count
      else failRange countStart count "una repetición" (1, Directive.maxCount)
  else failRange start value what (Bits.range bits)

/-- Reads an element of a list of integers. -/
def element (what : String) (bits : Nat) (symbols : Bool) : Parser Datum :=
  if symbols then orElse (integerDatum what bits) (.symbol <$> symbol) else integerDatum what bits

/-- Reads a number in double precision, with or without a fraction. -/
def number : Parser Binary64 :=
  orElse float do
    let value ← integer
    ofExcept (Binary64.ofInt value)

/-- Reads an integer from zero up to the greatest count. -/
def count (what : String) : Parser Int := do
  let (start, value) ← placedInteger
  if 0 ≤ value ∧ value ≤ Directive.maxCount then return value
  else failRange start value what (0, Directive.maxCount)

/-- Reads the data of a directive. -/
def directiveArgs (name : String) : DirectiveForm → Parser (List Datum)
  | .plain => pure []
  | .string => do
    let text ← preceded spaces1 string
    return [.text text]
  | .integers bits symbols => preceded spaces1 (sepBy1 comma (element name bits symbols))
  | .floats => do
    let values ← preceded spaces1 (sepBy1 comma number)
    return values.map .float
  | .count => do
    let value ← preceded spaces1 (count name)
    return [.int value]
  | .name => do
    let symbol ← preceded spaces1 identifier
    return [.text symbol]

/-- Reads a directive. -/
def directive : Parser Directive := do
  let name ← word Lexeme.directiveName?
  let form ← ofOption (Directive.form? name)
  let args ← directiveArgs name form
  let _ ← statementEnd
  return { name := name, args := args }

end MipsSource.Parser
