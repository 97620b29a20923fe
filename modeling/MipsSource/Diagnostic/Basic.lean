import MipsSource.Numeral.Digits
import MipsSource.Text.Uppercase

/-!
# Diagnostics

A message about a source text, with where it points and a hint, and its one-line text.
-/

set_option autoImplicit false

namespace MipsSource

/-- How serious a diagnostic is. -/
inductive Severity where
  | error
  | warning
  | note
  /-- A severity with a name of its own. -/
  | other (name : String)
deriving DecidableEq, Repr

namespace Severity

/-- The severity with this name. -/
def ofName : String → Severity
  | "error" => .error
  | "advertencia" => .warning
  | "nota" => .note
  | name => .other name

/-- The name of a severity. -/
def name : Severity → String
  | .error => "error"
  | .warning => "advertencia"
  | .note => "nota"
  | .other name => name

/-- The severity as a diagnostic shows it: its name in capitals. -/
def label : Severity → String
  | .error => "ERROR"
  | .warning => "ADVERTENCIA"
  | .note => "NOTA"
  | .other name => Text.upper name

end Severity

/-- A message about a source text. -/
structure Diagnostic where
  severity : Severity
  message : String
  line : Option Int := none
  col : Option Int := none
  hint : Option String := none
  file : Option String := none
  kind : Option String := none
deriving DecidableEq, Repr

namespace Diagnostic

/-- Line and column as they stand before the message; a column without a line is not shown. -/
def place (line col : Option Int) : String :=
  match line, col with
  | none, _ => ""
  | some l, none => Numeral.text l
  | some l, some c => Numeral.text l ++ ":" ++ Numeral.text c

/-- File, line and column, as far as they are known. -/
def location (d : Diagnostic) : String :=
  let file := match d.file with
    | none => ""
    | some f => f ++ ":"
  file ++ place d.line d.col

/-- The hint as it stands after the message; an empty hint is not shown. -/
def hintText : Option String → String
  | none => ""
  | some hint => if hint = "" then "" else "  (pista: " ++ hint ++ ")"

/-- The diagnostic on one line. -/
def text (d : Diagnostic) : String :=
  let location := if d.location = "" then "" else d.location ++ ": "
  location ++ d.severity.label ++ ": " ++ d.message ++ hintText d.hint

end Diagnostic

end MipsSource
