/-!
# Escapes in literals

Backslash escapes inside string and character literals: `\n`, `\t`, `\r`, `\0`, and the backslash
and both quotation marks themselves.

* `unescape_escape`: what `escape` writes, `unescape` reads.
-/

set_option autoImplicit false

namespace MipsSource.Text

/-- The character that a letter after a backslash stands for. -/
def escaped? (letter : Char) : Option Char :=
  if letter = 'n' then some '\n'
  else if letter = 't' then some '\t'
  else if letter = 'r' then some '\r'
  else if letter = '0' then some '\x00'
  else if letter = '\\' ∨ letter = '"' ∨ letter = '\'' then some letter
  else none

/-- Replaces the escapes of a literal's body; there is no result if an escape is not known. A
backslash before a newline or at the end is no escape. -/
def unescape : List Char → Option (List Char)
  | [] => some []
  | [c] => some [c]
  | c :: letter :: rest =>
    if c = '\\' then
      if letter = '\n' then (unescape rest).map fun body => c :: letter :: body
      else
        match escaped? letter with
        | some value => (unescape rest).map (value :: ·)
        | none => none
    else (unescape (letter :: rest)).map (c :: ·)

/-- A character as it is written inside a literal between two `mark`s. -/
def escapeChar (mark c : Char) : List Char :=
  if c = mark then ['\\', c]
  else if c = '\n' then ['\\', 'n']
  else if c = '\t' then ['\\', 't']
  else if c = '\r' then ['\\', 'r']
  else if c = '\x00' then ['\\', '0']
  else if c = '\\' then ['\\', '\\']
  else [c]

/-- A text as it is written inside a literal between two `mark`s. -/
def escape (mark : Char) (text : List Char) : List Char :=
  text.flatMap (escapeChar mark)

theorem unescape_cons_of_ne {c : Char} (h : c ≠ '\\') (rest : List Char) :
    unescape (c :: rest) = (unescape rest).map (c :: ·) := by
  cases rest with
  | nil => rfl
  | cons letter rest => rw [unescape, if_neg h]

theorem unescape_cons_backslash {letter value : Char} (h : escaped? letter = some value)
    (hn : letter ≠ '\n') (rest : List Char) :
    unescape ('\\' :: letter :: rest) = (unescape rest).map (value :: ·) := by
  rw [unescape, if_pos rfl, if_neg hn, h]

/-- What `escape` writes between quotation marks, `unescape` reads. -/
theorem unescape_escape {mark : Char} (hm : mark = '"' ∨ mark = '\'') (text : List Char) :
    unescape (escape mark text) = some text := by
  induction text with
  | nil => rfl
  | cons c rest ih =>
    rw [escape, List.flatMap_cons, ← escape, escapeChar]
    split
    · rename_i hc
      have hv : escaped? c = some c := by rcases hm with hm | hm <;> simp [hc, hm, escaped?]
      have hn : c ≠ '\n' := by rcases hm with hm | hm <;> simp [hc, hm]
      rw [List.cons_append, List.cons_append, unescape_cons_backslash hv hn, List.nil_append, ih,
        Option.map_some]
    iterate 5
      split
      · rename_i hc
        subst hc
        rw [List.cons_append, List.cons_append, unescape_cons_backslash rfl (by decide),
          List.nil_append, ih, Option.map_some]
    rename_i hc
    rw [List.cons_append, unescape_cons_of_ne hc, List.nil_append, ih, Option.map_some]

end MipsSource.Text
