import MipsSource.Cursor
import MipsSource.Fault

/-!
# Parsers

A parser reads from a cursor. It may match, with a value and the place after what it read; it may
not match, which lets another parser try; or it may fail, which ends all reading.

* `bind_matched`, `bind_unmatched`, `bind_failed`: what reading in sequence answers.
-/

set_option autoImplicit false

namespace MipsSource

/-- What a parser answers. -/
inductive Reply (α : Type) where
  /-- A value, and the place after the text it was read from. -/
  | matched (value : α) (after : Cursor)
  /-- The text does not start with what the parser reads. -/
  | unmatched
  /-- The text is wrong, whatever else it could be read as. -/
  | failed (fault : Fault)
deriving DecidableEq, Repr

/-- A parser of values of type `α`. -/
def Parser (α : Type) : Type :=
  Cursor → Reply α

namespace Parser

variable {α β : Type}

/-- Matches without reading anything. -/
protected def pure (value : α) : Parser α := fun c => .matched value c

/-- Reads with one parser, then goes on with the parser its value selects. -/
protected def bind (p : Parser α) (next : α → Parser β) : Parser β := fun c =>
  match p c with
  | .matched value after => next value after
  | .unmatched => .unmatched
  | .failed fault => .failed fault

instance : Monad Parser where
  pure := Parser.pure
  bind := Parser.bind

/-- Never matches. -/
def noMatch : Parser α := fun _ => .unmatched

/-- Ends all reading. -/
def fail (fault : Fault) : Parser α := fun _ => .failed fault

/-- A computed value, or the fault that prevented it. -/
def ofExcept : Except Fault α → Parser α
  | .ok value => .pure value
  | .error fault => fail fault

/-- A computed value, or no match if there is none. -/
def ofOption : Option α → Parser α
  | some value => .pure value
  | none => noMatch

/-- The current place. -/
def position : Parser Cursor := fun c => .matched c c

/-- Reads the word `word`. -/
def tag (word : String) : Parser String := fun c =>
  if c.startsWith word.toList then .matched word (c.advance word.toList.length) else .unmatched

/-- Reads with a scanner: a function from the text ahead to a value and the number of characters
it was read from. -/
def scan (scanner : List Char → Option (α × Nat)) : Parser α := fun c =>
  match scanner c.rest with
  | some (value, n) => .matched value (c.advance n)
  | none => .unmatched

/-- Reads with `p`, or with `q` where `p` does not match. -/
def orElse (p q : Parser α) : Parser α := fun c =>
  match p c with
  | .unmatched => q c
  | reply => reply

/-- Reads with the first parser that matches. -/
def choice : List (Parser α) → Parser α
  | [] => noMatch
  | p :: ps => orElse p (choice ps)

/-- Reads with all the parsers, one after the other. -/
def sequence : List (Parser α) → Parser (List α)
  | [] => pure []
  | p :: ps => do
    let value ← p
    let values ← sequence ps
    return value :: values

/-- Reads with `p`; where it does not match, reads nothing and gives `default`. -/
def withDefault (p : Parser α) (default : α) : Parser α :=
  orElse p (.pure default)

/-- Reads with `p` if it matches. -/
def optional (p : Parser α) : Parser (Option α) :=
  withDefault (some <$> p) none

/-- The values that `p` reads one after the other, until it does not match or reads nothing, and
the place after the last of them. A repetition with more rounds than `left` has characters is given
up as endless. -/
def collectWithin (p : Parser α) (left : List Char) (c : Cursor) :
    Except Fault (List α × Cursor) :=
  match p c with
  | .matched value after =>
    if after.offset = c.offset then .ok ([], c)
    else
      match left with
      | [] => .error .endless
      | _ :: left =>
        (collectWithin p left after).map fun (values, last) => (value :: values, last)
  | .unmatched => .ok ([], c)
  | .failed fault => .error fault

/-- The values that `p` reads one after the other, and the place after the last of them. Each
round reads a character at least if `p` stays within the text, so what is left to read bounds the
rounds. -/
def collect (p : Parser α) (c : Cursor) : Except Fault (List α × Cursor) :=
  collectWithin p c.rest c

/-- Reads with `p` as often as it matches and reads something. -/
def many (p : Parser α) : Parser (List α) := fun c =>
  match collect p c with
  | .ok (values, after) => .matched values after
  | .error fault => .failed fault

/-- Reads with two parsers and keeps the value of the second. -/
def preceded (first : Parser α) (second : Parser β) : Parser β := do
  let _ ← first
  second

/-- Reads one or more values with separators between them; a separator that no value follows is
left unread. -/
def sepBy1 (separator : Parser α) (item : Parser β) : Parser (List β) := do
  let first ← item
  let others ← many (preceded separator item)
  return first :: others

/-! ## Equations -/

@[simp]
theorem pure_apply (value : α) (c : Cursor) : (pure value : Parser α) c = .matched value c := rfl

theorem bind_apply (p : Parser α) (next : α → Parser β) (c : Cursor) :
    (p >>= next) c =
      match p c with
      | .matched value after => next value after
      | .unmatched => .unmatched
      | .failed fault => .failed fault := rfl

theorem bind_matched {p : Parser α} {next : α → Parser β} {c after : Cursor} {value : α}
    (h : p c = .matched value after) : (p >>= next) c = next value after := by
  rw [bind_apply, h]

theorem bind_unmatched {p : Parser α} {next : α → Parser β} {c : Cursor}
    (h : p c = .unmatched) : (p >>= next) c = .unmatched := by
  rw [bind_apply, h]

theorem bind_failed {p : Parser α} {next : α → Parser β} {c : Cursor} {fault : Fault}
    (h : p c = .failed fault) : (p >>= next) c = .failed fault := by
  rw [bind_apply, h]

theorem bind_pure_comp_id (p : Parser α) : p >>= pure = p := by
  funext c
  rw [bind_apply]
  cases p c <;> rfl

theorem bind_bind {γ : Type} (p : Parser α) (f : α → Parser β) (g : β → Parser γ) :
    p >>= f >>= g = p >>= fun value => f value >>= g := by
  funext c
  simp only [bind_apply]
  cases p c <;> rfl

instance : LawfulMonad Parser :=
  LawfulMonad.mk' Parser bind_pure_comp_id (fun _ _ => rfl) bind_bind

end Parser

end MipsSource
