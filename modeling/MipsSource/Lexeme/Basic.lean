import MipsSource.Binary64.Basic
import MipsSource.Numeral.Read

/-!
# Lexemes

The smallest pieces of assembly text. Each scanner looks at the text ahead and tells the piece it
starts with, if any. A piece that is followed at once by a letter, digit, underscore or point is
no number.
-/

set_option autoImplicit false

namespace MipsSource.Lexeme

/-! ## Characters -/

/-- Can an identifier start with the character? -/
def isWordStart (c : Char) : Bool :=
  c.isAlpha || c = '_'

/-- A letter, digit or underscore. -/
def isNameChar (c : Char) : Bool :=
  c.isAlphanum || c = '_'

/-- Can an identifier go on with the character? -/
def isWordChar (c : Char) : Bool :=
  isNameChar c || c = '.'

/-- Does the text go on with a character of an identifier? -/
def startsWord : List Char → Bool
  | [] => false
  | c :: _ => isWordChar c

/-- The sign that a text may start with. -/
def sign : List Char → List Char
  | [] => []
  | c :: _ => if Numeral.isSign c then [c] else []

/-! ## Blanks -/

/-- The character that starts a comment. -/
def commentChar : Char := '#'

/-- The length of the spaces, line ends and comments that a text starts with. A comment runs up to
the newline; `inComment` tells whether one has begun. -/
def blankLength : Bool → List Char → Nat
  | _, [] => 0
  | inComment, c :: rest =>
    if c = '\n' then blankLength false rest + 1
    else if inComment then blankLength true rest + 1
    else if c = ' ' ∨ c = '\r' then blankLength false rest + 1
    else if c = commentChar then blankLength true rest + 1
    else 0

/-- The spaces that a text starts with. -/
def spaces (text : List Char) : List Char :=
  text.takeWhile (· = ' ')

/-! ## Words -/

/-- A letter or underscore, then letters, digits, underscores and points. -/
def identifier? : List Char → Option (List Char)
  | [] => none
  | c :: rest => if isWordStart c then some (c :: rest.takeWhile isWordChar) else none

/-- A point and a name that nothing else of an identifier follows. -/
def directiveName? : List Char → Option (List Char)
  | '.' :: c :: rest =>
    if isWordStart c && !startsWord (rest.dropWhile isNameChar) then
      some ('.' :: c :: rest.takeWhile isNameChar)
    else none
  | _ => none

/-- The name of a label, and the length of the label with the colon that ends it. -/
def label? (text : List Char) : Option (List Char × Nat) :=
  match identifier? text with
  | none => none
  | some name =>
    let gap := spaces (text.drop name.length)
    match text.drop (name.length + gap.length) with
    | ':' :: _ => some (name, name.length + gap.length + 1)
    | _ => none

/-- The name of a register after the dollar sign: letters, digits and underscores after an
optional sign. -/
def registerName? : List Char → Option (List Char)
  | '$' :: rest =>
    let mark := sign rest
    let name := (rest.drop mark.length).takeWhile isNameChar
    if name = [] then none else some (mark ++ name)
  | _ => none

/-! ## Numbers -/

/-- One or more digits of a base. -/
def isDigits (base : Nat) (word : List Char) : Bool :=
  !word.isEmpty && word.all fun c => (Numeral.digitBelow? base c).isSome

/-- Digits after the mark of a base that `allowed` takes. -/
def isMarked (allowed : Nat → Bool) : List Char → Bool
  | '0' :: mark :: digits =>
    match Numeral.markedBase? mark with
    | some base => allowed base && isDigits base digits
    | none => false
  | _ => false

/-- Is the word a numeral in decimal, or marked as hexadecimal, octal or binary? -/
def isNumeral (word : List Char) : Bool :=
  isDigits 10 word || isMarked (fun _ => true) word

/-- Is the word a numeral in decimal, or marked as hexadecimal? -/
def isOffset (word : List Char) : Bool :=
  isDigits 10 word || isMarked (· = 16) word

/-- A numeral with an optional sign, as a whole word. -/
def integer? (text : List Char) : Option (List Char) :=
  let mark := sign text
  let word := (text.drop mark.length).takeWhile isWordChar
  if isNumeral word then some (mark ++ word) else none

/-- The sign and the numeral of an offset, with spaces allowed around the sign, and its length. -/
def symbolOffset? (text : List Char) : Option ((Char × List Char) × Nat) :=
  let before := spaces text
  match text.drop before.length with
  | mark :: rest =>
    let after := spaces rest
    let word := (rest.drop after.length).takeWhile isWordChar
    if Numeral.isSign mark && isOffset word then
      some ((mark, word), before.length + 1 + after.length + word.length)
    else none
  | [] => none

/-- The value of a run of decimal digits. -/
def decimalValue (digits : List Char) : Nat :=
  Numeral.ofDigits 10 (digits.map fun c => c.toNat - '0'.toNat)

/-- An exponent: its letter, an optional sign and digits. The value and the length. -/
def exponent? : List Char → Option (Int × Nat)
  | [] => none
  | letter :: rest =>
    let mark := sign rest
    let digits := (rest.drop mark.length).takeWhile Char.isDigit
    if (letter = 'e' ∨ letter = 'E') ∧ digits ≠ [] then
      some (Numeral.signed (mark = ['-']) (decimalValue digits), 1 + mark.length + digits.length)
    else none

/-- The digits after a decimal point. -/
def fraction? : List Char → Option (List Char)
  | '.' :: rest =>
    let digits := rest.takeWhile Char.isDigit
    if digits = [] then none else some digits
  | _ => none

/-- A number with a fraction, an exponent or both, as a whole word, and its length. -/
def decimal? (text : List Char) : Option (Binary64.Decimal × Nat) :=
  let mark := sign text
  let whole := (text.drop mark.length).takeWhile Char.isDigit
  let afterWhole := text.drop (mark.length + whole.length)
  let fraction := fraction? afterWhole
  let fractionLength := match fraction with
    | some digits => digits.length + 1
    | none => 0
  let exponent := exponent? (afterWhole.drop fractionLength)
  let exponentLength := match exponent with
    | some (_, n) => n
    | none => 0
  let length := mark.length + whole.length + fractionLength + exponentLength
  if whole ≠ [] ∧ (fraction.isSome ∨ exponent.isSome) ∧ ¬ startsWord (text.drop length) then
    let digits := fraction.getD []
    some ({ negative := mark = ['-']
            coefficient := decimalValue (whole ++ digits)
            exponent := (exponent.map (·.1)).getD 0 - digits.length }, length)
  else none

/-! ## Quoted literals -/

/-- The body of a character literal, escapes as written. -/
def character? : List Char → Option (List Char)
  | '\'' :: '\\' :: letter :: '\'' :: _ => if letter = '\n' then none else some ['\\', letter]
  | '\'' :: c :: '\'' :: _ => if c = '\\' ∨ c = '\'' ∨ c = '\n' then none else some [c]
  | _ => none

/-- The body of a string literal up to its closing quotation mark, escapes as written. -/
def stringBody : List Char → Option (List Char)
  | [] => none
  | '"' :: _ => some []
  | '\\' :: letter :: rest =>
    if letter = '\n' then none else (stringBody rest).map fun body => '\\' :: letter :: body
  | c :: rest => if c = '\\' ∨ c = '\n' then none else (stringBody rest).map (c :: ·)

/-- The body of a string literal, escapes as written. -/
def string? : List Char → Option (List Char)
  | '"' :: rest => stringBody rest
  | _ => none

end MipsSource.Lexeme
