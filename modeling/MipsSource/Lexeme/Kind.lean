import MipsSource.Lexeme.Basic

/-!
# Kinds of lexemes

The lexemes as data: each kind of lexeme with its scanner, and the parts that a match tells apart.
-/

set_option autoImplicit false

namespace MipsSource

/-- The kinds of lexemes. -/
inductive LexemeKind where
  | blanks
  | identifier
  | integer
  | decimal
  | character
  | string
  | register
  | symbolOffset
  | directive
  | label
deriving DecidableEq, Repr

/-- The text of a lexeme and of its parts. -/
structure LexemeMatch where
  whole : List Char
  parts : List (List Char) := []
deriving DecidableEq, Repr

namespace LexemeMatch

/-- The text of a part; part 0 is the whole. -/
def part? (m : LexemeMatch) (n : Nat) : Option (List Char) :=
  (m.whole :: m.parts)[n]?

end LexemeMatch

namespace LexemeKind

/-- The lexeme of a kind that a text starts with. -/
def match? (kind : LexemeKind) (text : List Char) : Option LexemeMatch :=
  match kind with
  | .blanks => some { whole := text.take (Lexeme.blankLength false text) }
  | .identifier => (Lexeme.identifier? text).map fun name => { whole := name }
  | .integer => (Lexeme.integer? text).map fun literal => { whole := literal }
  | .decimal => (Lexeme.decimal? text).map fun (_, n) => { whole := text.take n }
  | .character => (Lexeme.character? text).map fun body =>
      { whole := text.take (body.length + 2), parts := [body] }
  | .string => (Lexeme.string? text).map fun body =>
      { whole := text.take (body.length + 2), parts := [body] }
  | .register => (Lexeme.registerName? text).map fun name =>
      { whole := '$' :: name, parts := [name] }
  | .symbolOffset => (Lexeme.symbolOffset? text).map fun ((mark, word), n) =>
      { whole := text.take n, parts := [[mark], word] }
  | .directive => (Lexeme.directiveName? text).map fun name => { whole := name }
  | .label => (Lexeme.label? text).map fun (name, n) =>
      { whole := text.take n, parts := [name] }

end LexemeKind

end MipsSource
