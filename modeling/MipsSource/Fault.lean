import MipsSource.Diagnostic.SourceError

/-!
# Faults

Why an operation of the library has no result: an error in the source text, which is reported as a
diagnostic, or a request that cannot be met.
-/

set_option autoImplicit false

namespace MipsSource

/-- Why an operation has no result. -/
inductive Fault where
  /-- The source text is wrong. -/
  | source (error : SourceError)
  /-- A numeral has, or would have, more than `Numeral.maxDigits` decimal digits. -/
  | tooManyDigits
  /-- The text is no numeral. -/
  | badNumeral
  /-- The integer rounds to no finite double. -/
  | floatOverflow
  /-- The tab width is no signed 32-bit number. -/
  | tabWidthOverflow
  /-- A bit count has to be positive. -/
  | bitCount
  /-- A range of numbers of no bits was asked for. -/
  | noBits
  /-- An element was asked for that is not there. -/
  | missingElement
  /-- The operation is not defined on this kind of value. -/
  | wrongKind
  /-- Something else stands where an operand is expected; `shown` is its text. -/
  | unknownOperand (shown : String)
  /-- Something else stands where an item is expected; `shown` is its text. -/
  | unknownItem (shown : String)
  /-- The bytes are not UTF-8. -/
  | undecodable
  /-- A path holds a NUL character. -/
  | nulInPath
  /-- A repetition goes on for more rounds than there are characters left to read. -/
  | endless
deriving DecidableEq, Repr

namespace Fault

/-- The fault for a cause, unless its message would show a number with too many digits. -/
def ofError (e : SourceError) : Fault :=
  if e.cause.numbers.all Numeral.isShowable then .source e else .tooManyDigits

/-- The fault for a cause whose place is not known. -/
def ofCause (cause : Cause) : Fault :=
  ofError { cause := cause }

/-- The fault for a cause at a place. -/
def ofCauseAt (cause : Cause) (line col : Int) : Fault :=
  ofError { cause := cause, line := some line, col := some col }

/-- Adds a place to an error in the source text; other faults have none. -/
def locate (fault : Fault) (line col : Option Int) (file : Option String) : Fault :=
  match fault with
  | .source e => .source (e.locate line col file)
  | other => other

/-- The error in the source text that a fault reports. -/
def sourceError? : Fault → Option SourceError
  | .source e => some e
  | _ => none

/-- The wording of a fault that has one of its own; the others are told apart by their kind. -/
def message? : Fault → Option String
  | .source e => some e.diagnostic.text
  | .bitCount => some "n debe ser positivo"
  | .unknownOperand shown => some ("Argumento desconocido: " ++ shown)
  | .unknownItem shown => some ("Item desconocido: " ++ shown)
  | _ => none

end Fault

end MipsSource
