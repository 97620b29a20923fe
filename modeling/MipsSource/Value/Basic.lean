import MipsSource.Cursor
import MipsSource.Item.Basic

/-!
# Values

Whatever a parser expression can read, as one type: plain values, lists and tuples of values, places
in a text, and the parts of a program. A directive or an instruction among them may hold values of
any kind; `toItem?` tells whether it is an item of a program.

* `toItem?_ofItem`: an item is found again in its value.
-/

set_option autoImplicit false

namespace MipsSource

/-- The value of a parser expression. -/
inductive Value where
  | none
  | text (value : String)
  | int (value : Int)
  | float (value : Binary64)
  | register (register : Register)
  | place (cursor : Cursor)
  | list (values : List Value)
  | tuple (values : List Value)
  | operand (operand : Operand)
  | repeated (value count : Int)
  | label (name : String)
  | directive (name : String) (args : List Value)
  | instruction (mnemonic : String) (args : List (Value × Int)) (col : Int)

namespace Value

/-! ## Parts of a program -/

/-- A piece of data as a value. -/
def ofDatum : Datum → Value
  | .int i => .int i
  | .float x => .float x
  | .text s => .text s
  | .symbol s => .operand (.symbol s)
  | .repeated v n => .repeated v n

/-- An operand with its column as a value. -/
def ofPlacedOperand (placed : Operand × Int) : Value × Int :=
  (.operand placed.1, placed.2)

/-- An item as a value. -/
def ofItem : Item → Value
  | .label name => .label name
  | .directive d => .directive d.name (d.args.map ofDatum)
  | .instruction i => .instruction i.mnemonic (i.operands.map ofPlacedOperand) i.col

/-- The piece of data that a value is. -/
def toDatum? : Value → Option Datum
  | .int i => some (.int i)
  | .float x => some (.float x)
  | .text s => some (.text s)
  | .operand (.symbol s) => some (.symbol s)
  | .repeated v n => some (.repeated v n)
  | _ => Option.none

/-- The operand that a value is, with its column. -/
def toPlacedOperand? : Value × Int → Option (Operand × Int)
  | (.operand o, col) => some (o, col)
  | _ => Option.none

/-- The item that a value is. -/
def toItem? : Value → Option Item
  | .label name => some (.label name)
  | .directive name args =>
    (args.mapM toDatum?).map fun args => .directive { name := name, args := args }
  | .instruction mnemonic args col =>
    (args.mapM toPlacedOperand?).map fun operands =>
      .instruction { mnemonic := mnemonic, operands := operands, col := col }
  | _ => Option.none

theorem mapM_map_some {α β : Type} {f : α → β} {g : β → Option α} (h : ∀ a, g (f a) = some a)
    (as : List α) : (as.map f).mapM g = some as := by
  induction as with
  | nil => rfl
  | cons a rest ih => simp [List.mapM_cons, h, ih]

/-- An item is found again in its value. -/
theorem toItem?_ofItem (i : Item) : (ofItem i).toItem? = some i := by
  cases i with
  | label name => rfl
  | directive d =>
    have h : ∀ a : Datum, (ofDatum a).toDatum? = some a := by intro a; cases a <;> rfl
    simp [ofItem, toItem?, mapM_map_some h]
  | instruction i =>
    have h : ∀ a : Operand × Int, toPlacedOperand? (ofPlacedOperand a) = some a := fun _ => rfl
    simp [ofItem, toItem?, mapM_map_some h]

/-! ## Elements -/

/-- How many elements a value has; a text has its characters. -/
def length : Value → Except Fault Nat
  | .text s => .ok s.length
  | .list vs => .ok vs.length
  | .tuple vs => .ok vs.length
  | _ => .error .wrongKind

/-- The first element of a value; of a text, its first character. -/
def first : Value → Except Fault Value
  | .text s =>
    match s.toList with
    | c :: _ => .ok (.text (String.singleton c))
    | [] => .error .missingElement
  | .list vs | .tuple vs =>
    match vs with
    | v :: _ => .ok v
    | [] => .error .missingElement
  | _ => .error .wrongKind

end Value

end MipsSource
