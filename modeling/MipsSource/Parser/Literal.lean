import MipsSource.Binary64.Basic
import MipsSource.Lexeme.Basic
import MipsSource.Parser.Basic
import MipsSource.Text.Escape

/-!
# Parsers of blanks, names and literals

The lexemes as parsers of the values they stand for.
-/

set_option autoImplicit false

namespace MipsSource.Parser

/-- Reads a lexeme that is its own value. -/
def word (lexeme? : List Char → Option (List Char)) : Parser String :=
  scan fun text => (lexeme? text).map fun found => (String.ofList found, found.length)

/-- Reads spaces, if there are any. -/
def spaces : Parser String :=
  word fun text => some (Lexeme.spaces text)

/-- Reads one or more spaces. -/
def spaces1 : Parser String :=
  word fun text => if Lexeme.spaces text = [] then none else some (Lexeme.spaces text)

/-- Reads spaces, line ends and comments. -/
def blanks : Parser Unit :=
  scan fun text => some ((), Lexeme.blankLength false text)

/-- Reads an identifier. -/
def identifier : Parser String :=
  word Lexeme.identifier?

/-- Reads a literal between two quotation marks; one with an unknown escape does not match. -/
def quoted (body? : List Char → Option (List Char)) : Parser String := do
  let body ← scan fun text => (body? text).map fun body => (body, body.length + 2)
  ofOption ((Text.unescape body).map String.ofList)

/-- Reads a string literal. -/
def string : Parser String :=
  quoted Lexeme.string?

/-- Reads a character literal. -/
def character : Parser String :=
  quoted Lexeme.character?

/-- Reads an integer literal. -/
def integer : Parser Int := do
  let literal ← scan fun text => (Lexeme.integer? text).map fun found => (found, found.length)
  ofExcept (Numeral.readLiteral literal)

/-- Reads a literal with a fraction or an exponent. -/
def float : Parser Binary64 :=
  Binary64.ofDecimal <$> scan Lexeme.decimal?

/-- Reads an integer literal, and tells where it stands. -/
def placedInteger : Parser (Cursor × Int) := do
  let start ← position
  let value ← integer
  return (start, value)

/-- Reads the rest of a statement: spaces and an optional semicolon. -/
def statementEnd : Parser Unit := do
  let _ ← spaces
  let _ ← optional (tag ";")

/-- Reads a comma with the spaces around it. -/
def comma : Parser (List String) :=
  sequence [spaces, tag ",", spaces]

end MipsSource.Parser
