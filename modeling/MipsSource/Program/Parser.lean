import MipsSource.Item.Parser
import MipsSource.Program.Basic
import MipsSource.Text.LineBreak
import MipsSource.Text.TabStops

/-!
# Reading programs

A program is read item by item, with blanks and comments between them. Where no item can be read
reading ends with an error at that place: there is one error at most, and no part of a program.
-/

set_option autoImplicit false

namespace MipsSource

namespace Cursor

/-- Moves over spaces, line ends and comments. -/
def skipBlanks (c : Cursor) : Cursor :=
  c.advance (Lexeme.blankLength false c.rest)

end Cursor

namespace Parser

/-- Reads an item after blanks, and tells its line. -/
def placedItem : Parser (Item × Int) := do
  blanks
  let start ← position
  let value ← item
  return (value, start.line)

end Parser

namespace Program

/-- The error at a place where no item can be read. -/
def expectedItem (c : Cursor) : SourceError where
  cause := .noItem "se esperaba etiqueta, directiva o instrucción"
  hint := some ("cerca de " ++ Text.quoted (Text.firstLine (c.peek Cursor.previewLength)))
  line := some c.line
  col := some c.col

/-- Reads a program from a place on to the end of the text. -/
def read (c : Cursor) : Except Fault Program := do
  let (items, after) ← Parser.collect Parser.placedItem c
  let stop := after.skipBlanks
  if stop.atEnd then return { items := items } else throw (.source (expectedItem stop))

/-- Reads the program that a source text is. Columns count tabs up to the next tab stop; errors
carry the name of the file. -/
def ofText (text : List Char) (file : Option String) (tabWidth : Int) : Except Fault Program := do
  let expanded ← Text.expandTabs tabWidth text
  match read (.start expanded) with
  | .ok program => return program
  | .error fault => throw (fault.locate none none file)

end Program

/-- What reading a source text reports: a program, or diagnostics. -/
structure Report where
  program : Option Program
  diagnostics : List Diagnostic
deriving DecidableEq, Repr

namespace Report

/-- Reads a source text and reports an error in it as a diagnostic. -/
def ofText (text : List Char) (file : Option String) (tabWidth : Int) : Except Fault Report :=
  match Program.ofText text file tabWidth with
  | .ok program => .ok { program := some program, diagnostics := [] }
  | .error (.source e) => .ok { program := none, diagnostics := [e.diagnostic] }
  | .error fault => .error fault

end Report

end MipsSource
