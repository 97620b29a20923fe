import MipsSource.Fault
import MipsSource.Text.Blank
import MipsSource.Text.DecimalDigit

/-!
# Reading numerals

Whole numbers in decimal, and in hexadecimal, octal or binary after a base mark (`0x`, `0o`,
`0b`): an optional sign, then digits of any script, single underscores allowed between them.

* `ofDigits_append`: the positional value of a numeral, digit by digit.
-/

set_option autoImplicit false

namespace MipsSource.Numeral

/-! ## Digits -/

/-- The value of a digit or letter of ASCII as a digit, up to base 36. -/
def digit? (c : Char) : Option Nat :=
  if c.isDigit then some (c.toNat - '0'.toNat)
  else if c.isLower then some (c.toNat - 'a'.toNat + 10)
  else if c.isUpper then some (c.toNat - 'A'.toNat + 10)
  else none

/-- The value of a digit of a base. -/
def digitBelow? (base : Nat) (c : Char) : Option Nat :=
  (digit? c).filter (· < base)

/-- The number that digits stand for, the most significant first. -/
def ofDigits (base : Nat) (digits : List Nat) : Nat :=
  digits.foldl (fun n d => n * base + d) 0

/-- Takes out single underscores between digits; `afterDigit` tells what came before. -/
def ungroup : Bool → List Char → Option (List Char)
  | afterDigit, [] => if afterDigit then some [] else none
  | afterDigit, c :: rest =>
    if c = '_' then
      if afterDigit then ungroup false rest else none
    else (ungroup true rest).map (c :: ·)

/-- Reads a run of digits. Decimal digits are limited in number. -/
def readDigits (base : Nat) (text : List Char) : Except Fault Nat :=
  match (ungroup false text).bind (·.mapM (digitBelow? base)) with
  | none => .error .badNumeral
  | some digits =>
    if base = 10 ∧ maxDigits < digits.length then .error .tooManyDigits
    else .ok (ofDigits base digits)

theorem foldl_digits (base n : Nat) (digits : List Nat) :
    digits.foldl (fun n d => n * base + d) n =
      n * Nat.pow base digits.length + ofDigits base digits := by
  induction digits generalizing n with
  | nil => show n = n * 1 + 0; omega
  | cons d rest ih =>
    have hd : ofDigits base (d :: rest) =
        d * Nat.pow base rest.length + ofDigits base rest := by
      rw [ofDigits, List.foldl_cons, ih, Nat.zero_mul, Nat.zero_add]
    have hp : Nat.pow base (d :: rest).length = Nat.pow base rest.length * base := rfl
    rw [List.foldl_cons, ih, hd, hp, Nat.add_mul, Nat.add_assoc, Nat.mul_assoc, Nat.mul_comm base]

/-- The value of a numeral is that of its front, shifted by the digits after it, and of these. -/
theorem ofDigits_append (base : Nat) (high low : List Nat) :
    ofDigits base (high ++ low) =
      ofDigits base high * Nat.pow base low.length + ofDigits base low := by
  rw [ofDigits, List.foldl_append, foldl_digits]
  rfl

/-! ## Signed numerals -/

/-- Splits off an optional sign; the flag tells whether it is a minus. -/
def splitSign : List Char → Bool × List Char
  | '+' :: rest => (false, rest)
  | '-' :: rest => (true, rest)
  | text => (false, text)

/-- A magnitude with its sign. -/
def signed (negative : Bool) (magnitude : Nat) : Int :=
  if negative then -magnitude else magnitude

/-- The base that the letter of a base mark stands for. -/
def markedBase? (mark : Char) : Option Nat :=
  if mark = 'x' ∨ mark = 'X' then some 16
  else if mark = 'o' ∨ mark = 'O' then some 8
  else if mark = 'b' ∨ mark = 'B' then some 2
  else none

/-- Blanks of ASCII that may surround a numeral. -/
def isAsciiBlank (c : Char) : Bool :=
  c = ' ' || ('\t'.toNat ≤ c.toNat && c.toNat ≤ '\r'.toNat)

/-- The ASCII character that a blank or a digit of another script stands for in a numeral. -/
def plainChar (c : Char) : Char :=
  if c.toNat < 127 then c
  else if Text.isBlank c then ' '
  else match Text.decimalDigit? c with
    | some d => Char.ofNat ('0'.toNat + d)
    | none => c

/-- The sign and the digits of a numeral, without the blanks around it. -/
def parts (text : List Char) : Bool × List Char :=
  splitSign (Text.trimWhile isAsciiBlank (text.map plainChar))

/-- Reads a decimal numeral. -/
def readDecimal (text : List Char) : Except Fault Int :=
  let (negative, body) := parts text
  (readDigits 10 body).map (signed negative)

/-- The digits after a base mark; one underscore may stand between them and the mark. -/
def afterMark : List Char → List Char
  | '_' :: digits => digits
  | digits => digits

/-- Reads a numeral with a base mark. -/
def readMarked (text : List Char) : Except Fault Int :=
  match parts text with
  | (negative, '0' :: mark :: digits) =>
    match markedBase? mark with
    | some base => (readDigits base (afterMark digits)).map (signed negative)
    | none => .error .badNumeral
  | _ => .error .badNumeral

/-- Is the character a sign? -/
def isSign (c : Char) : Bool :=
  c = '+' || c = '-'

/-- Does the text, past its signs, start with a base mark? -/
def hasMark (text : List Char) : Bool :=
  match text.dropWhile isSign with
  | '0' :: mark :: _ => (markedBase? mark).isSome
  | _ => false

/-- Reads an integer literal: with a base mark in the base it marks, otherwise in decimal, where
leading zeros are allowed. -/
def readLiteral (text : List Char) : Except Fault Int :=
  let trimmed := Text.trim text
  if hasMark trimmed then readMarked trimmed else readDecimal trimmed

/-! ## Writing -/

/-- The decimal text of a number that has not too many digits. -/
def write (i : Int) : Except Fault String :=
  if isShowable i then .ok (text i) else .error .tooManyDigits

theorem write_eq_ok {i : Int} (h : isShowable i = true) : write i = .ok (text i) := by
  simp [write, h]

end MipsSource.Numeral
