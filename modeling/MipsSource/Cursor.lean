import MipsSource.Numeral.Digits
import MipsSource.Text.Quoted

/-!
# Cursors

A cursor is a place in a text: the characters from there on, and the offset, line and column of
the first of them. Only a newline starts a new line. A cursor may stand beyond the end of its
text; it then has nothing left to read, and moving brings it back to the end.

* `advance_advance`: moving on in pieces is moving on at once.
* `advance_offset_add`: what is read and what is left make up the text.
-/

set_option autoImplicit false

namespace MipsSource

/-- A place in a text. -/
structure Cursor where
  /-- The characters from here on. -/
  rest : List Char
  /-- How many characters lie before. -/
  offset : Nat := 0
  /-- How far the offset lies beyond the end of the text. -/
  past : Nat := 0
  line : Int := 1
  col : Int := 1
deriving DecidableEq, Repr

namespace Cursor

/-- The place at `offset` in a text, which is said to have this line and column. -/
def ofText (text : List Char) (offset : Nat) (line col : Int) : Cursor where
  rest := text.drop offset
  offset := offset
  past := offset - text.length
  line := line
  col := col

/-- The start of a text. -/
def start (text : List Char) : Cursor where
  rest := text

/-- The length of the whole text. -/
def textLength (c : Cursor) : Nat :=
  c.offset + c.rest.length - c.past

/-- Is nothing left to read? -/
def atEnd (c : Cursor) : Bool :=
  c.rest.isEmpty

/-- The place after a character and before `rest`. -/
def step (c : Cursor) (ch : Char) (rest : List Char) : Cursor where
  rest := rest
  offset := c.offset + 1
  past := c.past
  line := if ch = '\n' then c.line + 1 else c.line
  col := if ch = '\n' then 1 else c.col + 1

/-- Moves over `n` characters, or to the end if fewer are left. -/
def walk : Nat → Cursor → Cursor
  | 0, c => c
  | n + 1, c =>
    match c.rest with
    | [] => c
    | ch :: rest => walk n (c.step ch rest)

/-- The end of the text, for a cursor beyond it. -/
def backToEnd (c : Cursor) : Cursor :=
  { c with offset := c.offset - c.past, past := 0, col := c.col - c.past }

/-- Moves on by `n` characters, or to the end if fewer are left. -/
def advance (n : Nat) (c : Cursor) : Cursor :=
  if n = 0 then c else walk n c.backToEnd

/-- Moves on by a count that may be negative; such a count moves nothing. -/
def moveBy (n : Int) (c : Cursor) : Cursor :=
  c.advance n.toNat

/-- Moves on to an offset; one that lies behind is already reached. -/
def moveTo (target : Int) (c : Cursor) : Cursor :=
  c.moveBy (target - c.offset)

/-- Does the text go on with `word`? Beyond the end it does not go on, even with the empty word. -/
def startsWith (word : List Char) (c : Cursor) : Bool :=
  c.past = 0 && word.isPrefixOf c.rest

/-- The characters from here up to `n` places further; a place before the start of the text is
counted from its end. -/
def peek (n : Int) (c : Cursor) : List Char :=
  let stop := c.offset + n
  let stop := if stop < 0 then stop + c.textLength else stop
  c.rest.take (stop - c.offset).toNat

/-- How many characters a preview shows. -/
def previewLength : Int := 16

/-- The place and a preview of what follows, for messages. -/
def describe (c : Cursor) : String :=
  "Span(" ++ Numeral.text c.line ++ ":" ++ Numeral.text c.col ++ ", " ++
    Text.quoted (c.peek previewLength) ++ ")"

/-! ## Moving on -/

@[simp]
theorem advance_zero (c : Cursor) : c.advance 0 = c := rfl

theorem backToEnd_of_past {c : Cursor} (h : c.past = 0) : c.backToEnd = c := by
  obtain ⟨rest, offset, past, line, col⟩ := c
  subst h
  simp [backToEnd]

theorem walk_past (n : Nat) (c : Cursor) : (walk n c).past = c.past := by
  induction n generalizing c with
  | zero => rfl
  | succ n ih =>
    rw [walk]
    split
    · rfl
    · rw [ih]; rfl

theorem walk_walk (a b : Nat) (c : Cursor) : walk b (walk a c) = walk (a + b) c := by
  induction a generalizing c with
  | zero => rw [walk, Nat.zero_add]
  | succ a ih =>
    rw [show a + 1 + b = a + b + 1 by omega, walk, walk]
    split
    · rename_i h
      cases b with
      | zero => rfl
      | succ b => rw [walk, h]
    · exact ih _

/-- Moving on in pieces is moving on at once. -/
theorem advance_advance (a b : Nat) (c : Cursor) : (c.advance a).advance b = c.advance (a + b) := by
  by_cases ha : a = 0
  · simp [ha]
  by_cases hb : b = 0
  · simp [hb]
  have hp : (walk a c.backToEnd).past = 0 := by rw [walk_past]; rfl
  simp only [advance, ha, hb, show a + b ≠ 0 by omega, if_false]
  rw [backToEnd_of_past hp, walk_walk]

theorem walk_rest (n : Nat) (c : Cursor) : (walk n c).rest = c.rest.drop n := by
  induction n generalizing c with
  | zero => rfl
  | succ n ih =>
    rw [walk]
    split
    · simp_all
    · rw [ih]; simp_all [step]

theorem advance_rest (n : Nat) (c : Cursor) : (c.advance n).rest = c.rest.drop n := by
  rw [advance]
  split
  · simp_all
  · rw [walk_rest]; rfl

theorem walk_offset_add (n : Nat) (c : Cursor) :
    (walk n c).offset + (walk n c).rest.length = c.offset + c.rest.length := by
  induction n generalizing c with
  | zero => rfl
  | succ n ih =>
    rw [walk]
    split
    · rfl
    · rw [ih]
      simp_all only [step, List.length_cons]
      omega

/-- What is read and what is left make up the text. -/
theorem advance_offset_add {c : Cursor} (h : c.past = 0) (n : Nat) :
    (c.advance n).offset + (c.advance n).rest.length = c.offset + c.rest.length := by
  rw [advance]
  split
  · rfl
  · rw [walk_offset_add, backToEnd_of_past h]

end Cursor

end MipsSource
