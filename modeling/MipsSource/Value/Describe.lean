import MipsSource.Item.Render
import MipsSource.Text.Quoted
import MipsSource.Value.Basic

/-!
# Describing values

The text of a value in an error message: the kind of the value with its fields, texts quoted.

* `renderOperand`, `renderItem`, `itemKind`: what is written for a value that has to be an operand
  or an item; the error for one that is neither describes it.
-/

set_option autoImplicit false

namespace MipsSource

namespace Register

/-- A register as an error message describes it. -/
def describe (r : Register) : String :=
  "<Register." ++ r.capitalName ++ ": " ++ Numeral.text r.number.val ++ ">"

end Register

namespace Value

/-- A text as an error message describes it. -/
def describeText (s : String) : String :=
  Text.quoted s.toList

/-- The description of a tuple from those of its elements. -/
def describeTuple (elements : List String) : String :=
  match elements with
  | [element] => "(" ++ element ++ ",)"
  | _ => "(" ++ commaSeparated elements ++ ")"

/-- The description of a reference to a label. -/
def describeSymbol (s : Symbol) : Except Fault String := do
  let offset ← Numeral.write s.offset
  return "Sym(name=" ++ describeText s.name ++ ", offset=" ++ offset ++ ")"

/-- The description of an immediate. -/
def describeImmediate (value : Int) : Except Fault String := do
  let value ← Numeral.write value
  return "Imm(value=" ++ value ++ ")"

/-- The description of an operand. -/
def describeOperand : Operand → Except Fault String
  | .register r => .ok ("Reg(register=" ++ r.describe ++ ")")
  | .memory base displacement => do
    let offset ← match displacement with
      | .none => pure "None"
      | some (.immediate value) => describeImmediate value
      | some (.symbol s) => describeSymbol s
    return "Mem(register=" ++ base.describe ++ ", offset=" ++ offset ++ ")"
  | .immediate value => describeImmediate value
  | .symbol s => describeSymbol s
  | .character value => .ok ("Char(value=" ++ describeText value ++ ")")
  | .float value => .ok ("Float(value=" ++ value.text ++ ")")

/-- The description of a repeated integer. -/
def describeRepeated (value count : Int) : Except Fault String := do
  let value ← Numeral.write value
  let count ← Numeral.write count
  return "Repeat(value=" ++ value ++ ", count=" ++ count ++ ")"

mutual

/-- The description of a value. -/
def describe : Value → Except Fault String
  | .none => .ok "None"
  | .text value => .ok (describeText value)
  | .int value => Numeral.write value
  | .float value => .ok value.text
  | .register r => .ok r.describe
  | .place cursor => .ok cursor.describe
  | .list values => (describeAll values).map fun elements => "[" ++ commaSeparated elements ++ "]"
  | .tuple values => (describeAll values).map describeTuple
  | .operand o => describeOperand o
  | .repeated value count => describeRepeated value count
  | .label name => .ok ("Label(name=" ++ describeText name ++ ")")
  | .directive name args =>
    (describeAll args).map fun args =>
      "Directive(name=" ++ describeText name ++ ", args=" ++ describeTuple args ++ ")"
  | .instruction mnemonic args col => do
    let args ← describePlaced args
    let col ← Numeral.write col
    return "Instruction(mnemonic=" ++ describeText mnemonic ++ ", arguments=" ++
      describeTuple args ++ ", col=" ++ col ++ ")"

/-- The descriptions of values. -/
def describeAll : List Value → Except Fault (List String)
  | [] => .ok []
  | v :: vs => do
    let shown ← describe v
    let others ← describeAll vs
    return shown :: others

/-- The descriptions of values with their columns. -/
def describePlaced : List (Value × Int) → Except Fault (List String)
  | [] => .ok []
  | (v, col) :: rest => do
    let shown ← describe v
    let col ← Numeral.write col
    let others ← describePlaced rest
    return describeTuple [shown, col] :: others

end

/-! ## Writing values as parts of a program -/

/-- The text of a value that has to be an operand. -/
def renderOperand : Value → Except Fault String
  | .operand o => o.render
  | v => do throw (.unknownOperand (← v.describe))

/-- The text of a value among the data of a directive: a text as it is, a reference to a label or
a repeated integer as in a program, a register as its number, and anything else described. -/
def renderDatum : Value → Except Fault String
  | .text value => .ok value
  | .register r => .ok (Numeral.text r.number.val)
  | .operand (.symbol s) => s.render
  | .repeated value count => (Datum.repeated value count).render
  | v => v.describe

/-- The error for a value that has to be an item. -/
def unknownItem {α : Type} (v : Value) : Except Fault α := do
  throw (.unknownItem (← v.describe))

/-- The text of a value that has to be an item. -/
def renderItem : Value → Except Fault String
  | .label name => .ok (name ++ ":")
  | .directive name args =>
    if Directive.isQuoted name then
      match args with
      | [] => .error .missingElement
      | .text value :: _ => .ok (Directive.quotedText name value)
      | _ => .error .wrongKind
    else (args.mapM renderDatum).map (Directive.plainText name)
  | .instruction mnemonic args _ =>
    (args.mapM fun entry => renderOperand entry.1).map (Instruction.plainText mnemonic)
  | v => unknownItem v

/-- The name of the kind of a value that has to be an item. -/
def itemKind : Value → Except Fault String
  | .label _ => .ok "label"
  | .directive .. => .ok "directive"
  | .instruction .. => .ok "instruction"
  | v => unknownItem v

/-- The item that a value has to be. -/
def toItem (v : Value) : Except Fault Item :=
  match v.toItem? with
  | some i => .ok i
  | Option.none => do
    let _ ← v.renderItem
    throw .wrongKind

end Value

end MipsSource
