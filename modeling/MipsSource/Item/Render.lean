import MipsSource.Binary64.Shortest
import MipsSource.Item.Basic
import MipsSource.Numeral.Read
import MipsSource.Text.Escape

/-!
# Writing items

The canonical text of operands, directives and items: small letters for registers, decimal
integers, one space after a comma. A number with too many digits cannot be written.
-/

set_option autoImplicit false

namespace MipsSource

/-- A text between two quotation marks, escaped. -/
def quotedLiteral (mark : Char) (text : String) : String :=
  String.ofList (mark :: Text.escape mark text.toList ++ [mark])

/-- Pieces with a comma and a space between them. -/
def commaSeparated (pieces : List String) : String :=
  ", ".intercalate pieces

namespace Register

/-- A register as it is written in an operand. -/
def render (r : Register) : String :=
  "$" ++ r.name

end Register

namespace Symbol

/-- The text of a reference to a label; an offset of zero is not written. -/
def render (s : Symbol) : Except Fault String :=
  if 0 < s.offset then (Numeral.write s.offset).map (s.name ++ "+" ++ ·)
  else if s.offset < 0 then (Numeral.write (-s.offset)).map (s.name ++ "-" ++ ·)
  else .ok s.name

end Symbol

namespace Displacement

/-- The text of a displacement. -/
def render : Displacement → Except Fault String
  | .immediate value => Numeral.write value
  | .symbol s => s.render

end Displacement

namespace Operand

/-- The text of an operand. -/
def render : Operand → Except Fault String
  | .register r => .ok r.render
  | .memory base none => .ok ("(" ++ base.render ++ ")")
  | .memory base (some d) => d.render.map fun offset => offset ++ "(" ++ base.render ++ ")"
  | .immediate value => Numeral.write value
  | .symbol s => s.render
  | .character value => .ok (quotedLiteral '\'' value)
  | .float value => .ok value.text

end Operand

namespace Datum

/-- The text of a piece of data. -/
def render : Datum → Except Fault String
  | .int value => Numeral.write value
  | .float value => .ok value.text
  | .text value => .ok value
  | .symbol s => s.render
  | .repeated value count => do
    let value ← Numeral.write value
    let count ← Numeral.write count
    return value ++ ":" ++ count

end Datum

namespace Directive

/-- Does the directive with this name quote its text? -/
def isQuoted (name : String) : Bool :=
  name = ".ascii" || name = ".asciiz"

/-- A directive that quotes its text. -/
def quotedText (name text : String) : String :=
  name ++ " " ++ quotedLiteral '"' text

/-- A directive from the texts of its data. -/
def plainText (name : String) (args : List String) : String :=
  if args.isEmpty then name else name ++ " " ++ commaSeparated args

/-- The text of a directive. -/
def render (d : Directive) : Except Fault String :=
  if isQuoted d.name then
    match d.args with
    | [] => .error .missingElement
    | .text value :: _ => .ok (quotedText d.name value)
    | _ => .error .wrongKind
  else (d.args.mapM Datum.render).map (plainText d.name)

end Directive

namespace Instruction

/-- An instruction from the texts of its operands. -/
def plainText (mnemonic : String) (operands : List String) : String :=
  let joined := commaSeparated operands
  if joined = "" then mnemonic else mnemonic ++ " " ++ joined

/-- The text of an instruction. -/
def render (i : Instruction) : Except Fault String :=
  (i.operands.mapM fun entry => Operand.render entry.1).map (plainText i.mnemonic)

end Instruction

namespace Item

/-- The text of an item. -/
def render : Item → Except Fault String
  | .label name => .ok (name ++ ":")
  | .directive d => d.render
  | .instruction i => i.render

end Item

end MipsSource
