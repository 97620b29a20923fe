import MipsSource.Text.Printable

/-!
# Quoted text

A text as a message shows it: in apostrophes, or in quotation marks where the text has an
apostrophe and no quotation mark. The mark in use, the backslash and every unprintable character
are escaped, so the quoted form stays on one line.
-/

set_option autoImplicit false

namespace MipsSource.Text

/-- `code` in lower-case hexadecimal, padded with zeros to `width` digits. -/
def hexDigits (width code : Nat) : List Char :=
  let digits := Nat.toDigits 16 code
  List.replicate (width - digits.length) '0' ++ digits

/-- The escape of an unprintable character: the shortest of two, four or eight digits. -/
def escapeCode (code : Nat) : List Char :=
  if code < 0x100 then '\\' :: 'x' :: hexDigits 2 code
  else if code < 0x10000 then '\\' :: 'u' :: hexDigits 4 code
  else '\\' :: 'U' :: hexDigits 8 code

/-- A character inside a text quoted with `mark`. -/
def quoteChar (mark c : Char) : List Char :=
  if c = mark ∨ c = '\\' then ['\\', c]
  else if c = '\n' then ['\\', 'n']
  else if c = '\r' then ['\\', 'r']
  else if c = '\t' then ['\\', 't']
  else if isPrintable c then [c]
  else escapeCode c.toNat

/-- The mark that needs the fewer escapes; the apostrophe if both do. -/
def quoteMark (text : List Char) : Char :=
  if text.contains '\'' && !text.contains '"' then '"' else '\''

/-- The quoted form of a text. -/
def quoted (text : List Char) : String :=
  let mark := quoteMark text
  String.ofList (mark :: text.flatMap (quoteChar mark) ++ [mark])

end MipsSource.Text
