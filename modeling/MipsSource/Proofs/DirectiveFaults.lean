import MipsSource.Proofs.Offences

/-!
# How directives fail

In a text with at most 1000 letters, digits and underscores in a row every integer is read and
shown, so the range checks of a directive point at the number they are about. Only the integers in a
list of doubles are converted unchecked: `Parser.directive_faults` says that this is the one way to
fail that is no error with a place.
-/

set_option autoImplicit false

namespace MipsSource

namespace Parser

/-- A list of doubles starts at the offset, and after it stands an integer that is too large for a
double. -/
def OverflowAhead (text : List Char) (offset : Nat) : Prop :=
  ∃ name k literal value, Lexeme.directiveName? (text.drop offset) = some name ∧
    String.ofList name ∈ [".float", ".double"] ∧
    Lexeme.integer? (text.drop (offset + k)) = some literal ∧
    Numeral.readLiteral literal = .ok value ∧ Binary64.overflowBound ≤ value.natAbs

/-- The names of the directives that take doubles. -/
theorem form?_floats {name : String} (h : Directive.form? name = some .floats) :
    name ∈ [".float", ".double"] := by
  have hall : ∀ entry ∈ Directive.table, entry.2 = .floats → entry.1 ∈ [".float", ".double"] := by
    decide
  exact hall _ (form?_mem h) rfl

/-- **A directive matches, does not match, or fails with an error that has a place**, or else over
an integer in a list of doubles that is too large for a double. -/
theorem directive_faults {text : List Char} (hs : Lexeme.RunsWithin 1000 text) (offset : Nat)
    (line col : Int) :
    (∃ d after, directive (.ofText text offset line col) = .matched d after) ∨
      directive (.ofText text offset line col) = .unmatched ∨
      (∃ e, directive (.ofText text offset line col) = .failed (.source e) ∧
        e.line.isSome = true ∧ e.col.isSome = true) ∨
      (directive (.ofText text offset line col) = .failed .floatOverflow ∧
        OverflowAhead text offset) := by
  cases h : directive (.ofText text offset line col) with
  | matched d after => exact .inl ⟨d, after, rfl⟩
  | unmatched => exact .inr (.inl rfl)
  | failed fault =>
    refine .inr (.inr ?_)
    obtain ⟨name, form, hname, hform, n, -, hmis | ⟨rfl, rfl, value, hat, hover⟩⟩ :=
      directive_failed h
    · have hcases : (∃ e, fault = .source e) ∨ fault.sourceError? = none := by
        cases fault <;> simp [Fault.sourceError?]
      rcases hcases with ⟨e, rfl⟩ | hnone
      · obtain ⟨hline, hcol⟩ := hmis.offends.place
        exact .inl ⟨e, rfl, by rw [hline]; rfl, by rw [hcol]; rfl⟩
      · -- a number that is not read or not shown needs a run of 2150 characters
        refine absurd ?_ (hmis.digits hnone).2
        rw [Cursor.advance_rest]
        exact ((hs.drop offset).drop n).mono (by decide)
    · obtain ⟨literal, hl, hv⟩ := hat
      rw [Cursor.advance_rest, Cursor.ofText, List.drop_drop] at hl
      exact .inr ⟨rfl, name, n, literal, value, hname, form?_floats hform, hl, hv, hover⟩

/-- A repetition of no times, read from the middle of a text. -/
theorem directive_faults_repetition :
    Lexeme.RunsWithin 1000 "x: .word 7 : 0".toList ∧
      directive (.ofText "x: .word 7 : 0".toList 3 1 4) =
        .failed (.source { cause := .valueRange 0 "una repetición" 1 2147483647, line := some 1,
                           col := some 14 }) ∧
      ((∃ d after, directive (.ofText "x: .word 7 : 0".toList 3 1 4) = .matched d after) ∨
        directive (.ofText "x: .word 7 : 0".toList 3 1 4) = .unmatched ∨
        (∃ e, directive (.ofText "x: .word 7 : 0".toList 3 1 4) = .failed (.source e) ∧
          e.line.isSome = true ∧ e.col.isSome = true) ∨
        (directive (.ofText "x: .word 7 : 0".toList 3 1 4) = .failed .floatOverflow ∧
          OverflowAhead "x: .word 7 : 0".toList 3)) := by
  have hs : Lexeme.RunsWithin 1000 "x: .word 7 : 0".toList := .of_length (by decide)
  exact ⟨hs, by decide +kernel, directive_faults hs 3 1 4⟩

/-- A list of doubles with an integer of 400 digits. With a fraction after the digits the number is
read as infinity; without it, reading ends with no error in the text. -/
theorem directive_float_overflow :
    Lexeme.RunsWithin 1000 (".float ".toList ++ List.replicate 400 '9') ∧
      directive (.start (".float ".toList ++ List.replicate 400 '9')) = .failed .floatOverflow ∧
      directive (.start (".float ".toList ++ (List.replicate 400 '9' ++ ".0".toList))) =
        .matched { name := ".float", args := [.float ⟨0x7ff0000000000000⟩] }
          { rest := [], offset := 409, col := 410 } := by
  refine ⟨.of_length ?_, by decide +kernel, by decide +kernel⟩
  rw [List.length_append, List.length_replicate]
  decide

end Parser

end MipsSource
