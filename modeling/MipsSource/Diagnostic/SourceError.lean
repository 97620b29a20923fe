import MipsSource.Diagnostic.Basic
import MipsSource.Register.Basic

/-!
# Errors in a source text

What can be wrong with a source text, where it is wrong, and the diagnostic that says so. An
error may be made where its place is not known; whoever knows the place adds it with `locate`.

* `locate_of_line`: a place that is known is kept.
-/

set_option autoImplicit false

namespace MipsSource

/-- What is wrong with a source text. -/
inductive Cause where
  /-- The text is not what was asked for. -/
  | general (message : String)
  /-- No label, directive or instruction can be read. -/
  | noItem (message : String)
  /-- A register operand cannot be used. -/
  | register (message : String)
  /-- A number does not fit the field that `what` names. -/
  | valueRange (value : Int) (what : String) (lo hi : Int)
  /-- No register has this name. -/
  | unknownRegister (name : String)
  /-- The family has no register with this index. -/
  | familyIndex (family : String) (index : Int)
  /-- No register has this number. -/
  | registerNumber (index : Int)
deriving DecidableEq, Repr

namespace Cause

/-- The wording of an error. -/
def message : Cause → String
  | .general message => message
  | .noItem message => message
  | .register message => message
  | .valueRange value what _ _ => "Valor " ++ Numeral.text value ++ " fuera de rango para " ++ what
  | .unknownRegister name => "Registro desconocido: $" ++ name
  | .familyIndex family index => "Registro $" ++ family ++ Numeral.text index ++ " fuera de rango"
  | .registerNumber index => "Registro $" ++ Numeral.text index ++ " fuera de rango"

/-- The hint that goes with an error, where its cause suggests one. -/
def hint : Cause → Option String
  | .general _ => none
  | .noItem _ => none
  | .register _ => none
  | .valueRange _ _ lo hi =>
    some ("rango permitido: " ++ Numeral.text lo ++ ".." ++ Numeral.text hi)
  | .unknownRegister _ => some "use $0..$31 o un nombre como $t0, $sp, $ra"
  | .familyIndex family _ =>
    (Register.familyRange? family).map fun range =>
      "los registros $" ++ family ++ " van de $" ++ family ++ Numeral.text range.lo ++ " a $" ++
        family ++ Numeral.text range.hi
  | .registerNumber _ => some "los registros numéricos van de $0 a $31"

/-- A short name for each kind of error, for tools that do not read messages. -/
def kind : Cause → String
  | .general _ => "asm"
  | .noItem _ => "syntax"
  | .register _ => "register"
  | .valueRange .. => "value-range"
  | .unknownRegister _ => "unknown-register"
  | .familyIndex .. => "named-register-range"
  | .registerNumber _ => "num-register-range"

/-- Is the error about a register operand? -/
def isRegister : Cause → Bool
  | .register _ | .unknownRegister _ | .familyIndex .. | .registerNumber _ => true
  | _ => false

/-- The numbers that message and hint show. -/
def numbers : Cause → List Int
  | .valueRange value _ lo hi => [value, lo, hi]
  | .familyIndex _ index => [index]
  | .registerNumber index => [index]
  | _ => []

end Cause

/-- An error in a source text, with its place as far as it is known. -/
structure SourceError where
  cause : Cause
  hint : Option String := cause.hint
  line : Option Int := none
  col : Option Int := none
  file : Option String := none
deriving DecidableEq, Repr

namespace SourceError

/-- Adds the place and the file where they are missing. Line and column come from one caller: a
column is taken only together with a line. -/
def locate (e : SourceError) (line col : Option Int) (file : Option String) : SourceError :=
  let placed :=
    if e.line.isNone && line.isSome then { e with line := line, col := col } else e
  { placed with file := e.file.orElse fun _ => file }

/-- The diagnostic that reports an error. -/
def diagnostic (e : SourceError) : Diagnostic where
  severity := .error
  message := e.cause.message
  line := e.line
  col := e.col
  hint := e.hint
  file := e.file
  kind := some e.cause.kind

@[simp]
theorem locate_cause (e : SourceError) (line col : Option Int) (file : Option String) :
    (e.locate line col file).cause = e.cause := by
  simp only [locate]; split <;> rfl

@[simp]
theorem locate_hint (e : SourceError) (line col : Option Int) (file : Option String) :
    (e.locate line col file).hint = e.hint := by
  simp only [locate]; split <;> rfl

theorem locate_of_line {e : SourceError} {l : Int} (h : e.line = some l) (line col : Option Int)
    (file : Option String) :
    (e.locate line col file).line = some l ∧ (e.locate line col file).col = e.col := by
  simp [locate, h]

end SourceError

end MipsSource
