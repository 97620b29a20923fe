import MipsSource.Operand.Basic

/-!
# Directives

A directive tells the assembler where to put what follows or what data to put there. What a
directive takes is settled by its name; the table lists the names that are known.
-/

set_option autoImplicit false

namespace MipsSource

/-- A piece of data of a directive. -/
inductive Datum where
  | int (value : Int)
  | float (value : Binary64)
  | text (value : String)
  | symbol (symbol : Symbol)
  /-- The same integer, `count` times. -/
  | repeated (value count : Int)
deriving DecidableEq, Repr

/-- A directive, by its name, with its data. -/
structure Directive where
  name : String
  args : List Datum := []
deriving DecidableEq, Repr

/-- What a directive takes. -/
inductive DirectiveForm where
  /-- Nothing. -/
  | plain
  /-- A string literal. -/
  | string
  /-- Integers of so many bits, each possibly repeated, and references to labels if `symbols`. -/
  | integers (bits : Nat) (symbols : Bool)
  /-- Numbers in double precision. -/
  | floats
  /-- An integer from zero up to `Directive.maxCount`. -/
  | count
  /-- An identifier. -/
  | name
deriving DecidableEq, Repr

namespace Directive

/-- The known directives. -/
def table : List (String × DirectiveForm) :=
  [(".text", .plain), (".data", .plain), (".ktext", .plain), (".kdata", .plain),
   (".ascii", .string), (".asciiz", .string),
   (".byte", .integers 8 false), (".half", .integers 16 false), (".word", .integers 32 true),
   (".float", .floats), (".double", .floats),
   (".align", .count), (".space", .count), (".globl", .name)]

/-- What the directive with this name takes. -/
def form? (name : String) : Option DirectiveForm :=
  table.lookup name

/-- The greatest count of a directive or a repetition. -/
def maxCount : Int := 2147483647

end Directive

end MipsSource
