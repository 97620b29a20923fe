import MipsSource.Numeral.Read
import MipsSource.Register.Basic

/-!
# Resolving register operands

A register is written by its number or by its name, in capitals or small letters. What names no
register is told apart: a number that no register has, an index outside its family, or anything
else.

* `map_smallLetter_name`: the name of a register is in small letters.
-/

set_option autoImplicit false

namespace MipsSource.Register

/-- The small letter of a character whose small letter is one of ASCII: a capital, or the Kelvin
sign. No other character can become part of a register's name, and none is changed. -/
def smallLetter (c : Char) : Char :=
  if c = '\u212a' then 'k' else c.toLower

theorem map_smallLetter_name (r : Register) : r.name.toList.map smallLetter = r.name.toList := by
  obtain ⟨i⟩ := r
  revert i
  decide

/-- Is the text a sign, which may be missing, and one or more ASCII digits? -/
def isNumber (text : List Char) : Bool :=
  let digits := (Numeral.splitSign text).2
  !digits.isEmpty && digits.all Char.isDigit

/-- The signed 32-bit number that a text is, if it is one. -/
def int32? (text : List Char) : Except Fault (Option Int) :=
  if isNumber text then
    (Numeral.readDecimal text).map fun n =>
      if -2147483648 ≤ n ∧ n ≤ 2147483647 then some n else none
  else .ok none

/-- The register with this number. -/
def ofNumber (n : Int) : Except Fault Register :=
  match ofNumber? n with
  | some r => .ok r
  | none => .error (.ofCause (.registerNumber n))

/-- The error for a text that is neither a number nor a name: an index outside its family, or an
unknown register. -/
def unresolved (text : List Char) : Except Fault Register :=
  let unknown := Except.error (.ofCause (.unknownRegister (String.ofList text)))
  match text with
  | letter :: digits =>
    let family := String.singleton letter
    if (familyRange? family).isSome then do
      match ← int32? digits with
      | some index => .error (.ofCause (.familyIndex family index))
      | none => unknown
    else unknown
  | [] => unknown

/-- The register that an operand's text, without the dollar sign, stands for. -/
def resolve (text : List Char) : Except Fault Register := do
  match ← int32? text with
  | some n => ofNumber n
  | none =>
    match ofName? (String.ofList (text.map smallLetter)) with
    | some r => return r
    | none => unresolved text

/-- Drops one dollar sign from the front of a text. -/
def dropDollar : List Char → List Char
  | '$' :: rest => rest
  | text => text

/-- The register that a token stands for: blanks around it and a dollar sign before it do not
count. -/
def ofToken (token : List Char) : Except Fault Register :=
  resolve (dropDollar (Text.trim token))

/-- Does a token stand for a register? -/
def isToken (token : List Char) : Except Fault Bool :=
  match ofToken token with
  | .ok _ => .ok true
  | .error (.source e) => if e.cause.isRegister then .ok false else .error (.source e)
  | .error fault => .error fault

/-- The number of the register that a token stands for. -/
def tokenNumber (token : List Char) : Except Fault (Fin 32) :=
  (ofToken token).map Register.number

end MipsSource.Register
