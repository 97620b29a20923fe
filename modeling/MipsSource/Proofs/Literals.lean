import Mathlib.Data.List.Infix
import MipsSource.Proofs.OperandText
import MipsSource.Proofs.Progress

/-!
# What literals stand for

Literals on their own, wherever they stand. Quoted ones are decoded from what is written of them,
and integers are told apart by the sign and the word that stand ahead:

* `Parser.quotedLiterals_decode`: strings and characters are decoded, whatever stands around them.
* `Spelling.IsNumeral`: the numerals and their values, with any number of digits.
* `Lexeme.integer?_eq_find?`: a search by bases finds the same integers, which are whole words.
* `Parser.integer_reply_iff`: an integer is read with its value, has too many digits, or is none,
  and it is the one that the search by bases stops at.
-/

set_option autoImplicit false

namespace MipsSource

/-! ## Quoted literals -/

namespace Parser

variable {α : Type}

/-- Whatever stands around it, and wherever that is, `p` reads the literal as `value`, and stops
right after it on the same line. -/
def Decodes (p : Parser α) (literal : List Char) (value : α) : Prop :=
  ∀ (before tail : List Char) (line col : Int),
    p (.ofText (before ++ (literal ++ tail)) before.length line col) =
      .matched value
        { rest := tail
          offset := before.length + literal.length
          line := line
          col := col + literal.length }

theorem Decodes.of_reads {p : Parser α} {literal : List Char} {value : α}
    (h : ∀ tail, p.Reads literal tail (· = value)) (hn : '\n' ∉ literal) :
    p.Decodes literal value := by
  intro before tail line col
  have hrest : (before ++ (literal ++ tail)).drop before.length = literal ++ tail :=
    List.drop_left
  have hpast : (Cursor.ofText (before ++ (literal ++ tail)) before.length line col).past = 0 := by
    simp [Cursor.ofText]
  obtain ⟨v, rfl, hread⟩ := h tail _ hpast hrest
  have hinLine : InLine ((before ++ (literal ++ tail)).drop before.length) literal.length := by
    rw [hrest, InLine, List.take_left]
    exact hn
  have hle : literal.length ≤ ((before ++ (literal ++ tail)).drop before.length).length := by
    rw [hrest, List.length_append]
    omega
  have hafter : (before ++ (literal ++ tail)).drop (before.length + literal.length) = tail := by
    rw [← List.drop_drop, hrest, List.drop_left]
  rw [hread, Cursor.ofText_advance_inLine hle hinLine, Cursor.ofText, hafter]
  simp

/-- **Strings and characters are decoded from what is written of them**, wherever it stands, and
what is written has no newline, tab or carriage return. -/
theorem quotedLiterals_decode :
    (∀ text : String, string.Decodes (quotedLiteral '"' text).toList text) ∧
    (∀ c : Char, character.Decodes (quotedLiteral '\'' (String.ofList [c])).toList
      (String.ofList [c])) ∧
    ∀ text : List Char, (Text.escape '"' text).Disjoint ['\n', '\t', '\r'] ∧
      (Text.escape '\'' text).Disjoint ['\n', '\t', '\r'] := by
  refine ⟨fun text => ?_, fun c => ?_, fun text => ⟨fun c hc => ?_, fun c hc => ?_⟩⟩
  · exact .of_reads (string_reads text) (inline_quotedLiteral (.inl rfl) text).no_newline
  · refine .of_reads (fun tail => ?_) (inline_quotedLiteral (.inr rfl) _).no_newline
    rw [toList_quotedLiteral, String.toList_ofList, Text.escape, List.flatMap_singleton]
    exact character_reads (Text.isCharacter_escape c) tail
  · exact Text.not_mem_of_mem_escape (.inl rfl) hc
  · exact Text.not_mem_of_mem_escape (.inr rfl) hc

end Parser

/-! ## Numerals -/

namespace Spelling

/-- A numeral: decimal digits, of which the first may be zeros, or digits of another base after the
mark of the base. -/
inductive IsNumeral : List Char → Nat → Prop
  | decimal {word : List Char} {n : Nat} : IsDigits 10 word n → IsNumeral word n
  | marked {letter : Char} {base : Nat} {word : List Char} {n : Nat} :
      (letter, base) ∈ Numeral.baseMarks → IsDigits base word n →
      IsNumeral ('0' :: letter :: word) n

/-- Decimal digits, but more than are read. -/
def IsOverlong (word : List Char) : Prop :=
  (∃ n, IsDigits 10 word n) ∧ Numeral.maxDigits < word.length

variable {word : List Char} {n : Nat}

theorem isNumeral_iff : Lexeme.isNumeral word = true ↔ ∃ n, IsNumeral word n := by
  constructor
  · intro h
    rcases Bool.or_eq_true_iff.1 h with h | h
    · obtain ⟨n, hn⟩ := exists_isDigits h (by decide)
      exact ⟨n, .decimal hn⟩
    · obtain ⟨letter, digits, base, rfl, hb, -, hd⟩ := Numeral.isMarked_cases h
      obtain ⟨n, hn⟩ := exists_isDigits hd (Numeral.markedBase?_cases hb).2.1
      exact ⟨n, .marked (Numeral.markedBase?_eq_some_iff.1 hb) hn⟩
  · rintro ⟨n, hn⟩
    cases hn with
    | decimal hd => exact Numeral.isNumeral_of_decimal hd.isDecimal
    | marked hb hd =>
      exact Numeral.isNumeral_of_marked (Numeral.markedBase?_eq_some_iff.2 hb) hd.isDigits

theorem IsNumeral.isMagnitude (h : IsNumeral word n) (hlen : ¬ IsOverlong word) :
    IsMagnitude Numeral.baseMarks word n := by
  cases h with
  | decimal hd => exact .decimal hd (Nat.le_of_not_lt fun hlong => hlen ⟨⟨_, hd⟩, hlong⟩)
  | marked hb hd => exact .marked hb hd

theorem IsOverlong.isNumeral (h : IsOverlong word) : Lexeme.isNumeral word = true := by
  obtain ⟨⟨n, hd⟩, -⟩ := h
  exact Numeral.isNumeral_of_decimal hd.isDecimal

theorem IsOverlong.readLiteral (h : IsOverlong word) {mark : List Char}
    (hm : Numeral.IsMark mark) : Numeral.readLiteral (mark ++ word) = .error .tooManyDigits := by
  obtain ⟨⟨n, hd⟩, hlong⟩ := h
  obtain ⟨m, -, hread⟩ := Numeral.readDigits_of_isDigits hd.isDigits
  rw [Numeral.readLiteral_digits hm hd.isDigits, hread, if_pos ⟨rfl, hlong⟩]
  rfl

end Spelling

/-! ## Integers -/

namespace Lexeme

open Spelling

/-- The longest word after the sign that a text may start with. -/
def wordAhead (text : List Char) : List Char :=
  (text.drop (sign text).length).takeWhile isWordChar

theorem sign_append_drop (text : List Char) : sign text ++ text.drop (sign text).length = text :=
  List.prefix_iff_eq_append.1
    ((List.prefix_append _ _).trans (sign_append_front isWordChar text))

/-- What stands ahead is a sign, the longest word after it, and what follows. -/
theorem wordAhead_split (text : List Char) :
    ∃ tail, text = sign text ++ wordAhead text ++ tail ∧ startsWord tail = false := by
  refine ⟨(text.drop (sign text).length).dropWhile isWordChar, ?_, startsWord_dropWhile _⟩
  rw [List.append_assoc, wordAhead, List.takeWhile_append_dropWhile, sign_append_drop]

theorem integer?_eq (text : List Char) :
    integer? text =
      if isNumeral (wordAhead text) then some (sign text ++ wordAhead text) else none := rfl

/-- The fronts of a text that are numerals, as a search tries them: base after base, and in each
base the longest first. -/
def numeralFronts (text : List Char) : List (List Char) :=
  [isMarked (· = 16), isMarked (· = 2), isMarked (· = 8), isDigits 10].flatMap fun isWord =>
    text.inits.reverse.filter isWord

/-- The fronts of a text that are integers: those with the sign, if there is one, before the others.
-/
def integerFronts (text : List Char) : List (List Char) :=
  (numeralFronts (text.drop (sign text).length)).map (sign text ++ ·) ++ numeralFronts text

theorem isNumeral_eq_any (word : List Char) :
    isNumeral word = [isMarked (· = 16), isMarked (· = 2), isMarked (· = 8), isDigits 10].any
      fun isWord => isWord word := by
  have hbases : ∀ mark ∈ Numeral.baseMarks, mark.2 = 16 ∨ mark.2 = 2 ∨ mark.2 = 8 := by decide
  have hmarked : isMarked (fun _ => true) word =
      (isMarked (· = 16) word || (isMarked (· = 2) word || isMarked (· = 8) word)) := by
    unfold isMarked
    split
    · split
      · rename_i base hb
        have hbase : base = 16 ∨ base = 2 ∨ base = 8 :=
          hbases _ (Numeral.markedBase?_eq_some_iff.1 hb)
        rcases hbase with rfl | rfl | rfl <;> simp
      · rfl
    · rfl
  rw [isNumeral, hmarked, Bool.or_comm]
  simp [Bool.or_assoc]

theorem mem_numeralFronts {text word : List Char} :
    word ∈ numeralFronts text ↔ word <+: text ∧ isNumeral word = true := by
  rw [numeralFronts, List.mem_flatMap, isNumeral_eq_any, List.any_eq_true]
  simp only [List.mem_filter, List.mem_reverse, List.mem_inits]
  constructor
  · rintro ⟨isWord, hmem, hfront, hw⟩
    exact ⟨hfront, isWord, hmem, hw⟩
  · rintro ⟨hfront, isWord, hmem, hw⟩
    exact ⟨isWord, hmem, hfront, hw⟩

theorem exists_of_mem_integerFronts {text found : List Char} (h : found ∈ integerFronts text) :
    ∃ mark word tail, found = mark ++ word ∧ text = mark ++ word ++ tail ∧ Numeral.IsMark mark ∧
      isNumeral word = true := by
  rcases List.mem_append.1 h with h | h
  · obtain ⟨word, hword, rfl⟩ := List.mem_map.1 h
    obtain ⟨⟨tail, htail⟩, hw⟩ := mem_numeralFronts.1 hword
    refine ⟨sign text, word, tail, rfl, ?_, Numeral.isMark_sign text, hw⟩
    rw [List.append_assoc, htail, sign_append_drop]
  · obtain ⟨⟨tail, htail⟩, hw⟩ := mem_numeralFronts.1 h
    exact ⟨[], found, tail, rfl, htail.symm, .inl rfl, hw⟩

/-- **The order of the search does not matter**: the first of the fronts that no word goes on after
is the integer that is found. -/
theorem integer?_eq_find? (text : List Char) :
    integer? text =
      (integerFronts text).find? fun found => !startsWord (text.drop found.length) := by
  cases h : (integerFronts text).find? fun found => !startsWord (text.drop found.length) with
  | some found =>
    obtain ⟨mark, word, tail, rfl, rfl, hm, hw⟩ :=
      exists_of_mem_integerFronts (List.mem_of_find?_eq_some h)
    -- what the search stops at is a whole word, whatever it tried before
    have hend := List.find?_some h
    rw [List.drop_left, Bool.not_eq_true'] at hend
    exact integer?_numeral hm hw hend
  | none =>
    -- the longest word is among those that are tried, so it would have been found
    rw [integer?_eq, if_neg]
    intro hw
    obtain ⟨tail, htext, htail⟩ := wordAhead_split text
    have hmem : sign text ++ wordAhead text ∈ integerFronts text := by
      refine List.mem_append_left _ (List.mem_map_of_mem (mem_numeralFronts.2 ⟨?_, hw⟩))
      exact List.takeWhile_prefix _
    have hdrop : text.drop (sign text ++ wordAhead text).length = tail :=
      (congrArg (List.drop (sign text ++ wordAhead text).length) htext).trans List.drop_left
    exact List.find?_eq_none.1 h _ hmem (by rw [hdrop, htail]; rfl)

/-- The search takes neither the front `0b1` nor the front `0`, since a word goes on after both; a
letter beyond ASCII is no part of a word. -/
example : integer? "0b12".toList = none ∧ integer? "-0o7é".toList = some "-0o7".toList := by
  decide

end Lexeme

namespace Parser

open Lexeme Spelling

/-- What is read as an integer where `mark` and then the longest word `word` stand ahead, and
`after` is the place behind them. -/
inductive IntegerReply (mark word : List Char) (after : Cursor) : Reply Int → Prop
  | value {n : Nat} :
      IsNumeral word n → ¬ IsOverlong word →
      IntegerReply mark word after (.matched (Numeral.signed (mark = ['-']) n) after)
  | overlong : IsOverlong word → IntegerReply mark word after (.failed .tooManyDigits)
  | none : (∀ n, ¬ IsNumeral word n) → IntegerReply mark word after .unmatched

theorem exists_integerReply (mark word : List Char) (after : Cursor) :
    ∃ reply, IntegerReply mark word after reply := by
  by_cases hlong : IsOverlong word
  · exact ⟨_, .overlong hlong⟩
  by_cases hnumeral : ∃ n, IsNumeral word n
  · obtain ⟨n, hn⟩ := hnumeral
    exact ⟨_, .value hn hlong⟩
  · exact ⟨_, .none (not_exists.1 hnumeral)⟩

/-- A numeral as the longest word ahead is the literal whose value is read. -/
theorem integer_of_isNumeral {c : Cursor} (hw : isNumeral (wordAhead c.rest) = true) :
    integer c = ofExcept (Numeral.readLiteral (sign c.rest ++ wordAhead c.rest))
      (c.advance (sign c.rest ++ wordAhead c.rest).length) := by
  refine bind_matched ?_
  rw [scan, integer?_eq, if_pos hw]
  rfl

theorem integer_of_not_isNumeral {c : Cursor} (hw : ¬ isNumeral (wordAhead c.rest) = true) :
    integer c = .unmatched := by
  refine bind_unmatched ?_
  rw [scan, integer?_eq, if_neg hw]
  rfl

theorem IntegerReply.integer {c : Cursor} {reply : Reply Int}
    (h : IntegerReply (sign c.rest) (wordAhead c.rest)
      (c.advance (sign c.rest ++ wordAhead c.rest).length) reply) : integer c = reply := by
  have hm := Numeral.isMark_sign c.rest
  cases h with
  | @value n hn hlen =>
    rw [integer_of_isNumeral (isNumeral_iff.2 ⟨n, hn⟩),
      (hn.isMagnitude hlen).readLiteral (mark_mem_signs hm)]
    rfl
  | overlong hlong =>
    rw [integer_of_isNumeral hlong.isNumeral, hlong.readLiteral hm]
    rfl
  | none hnone =>
    exact integer_of_not_isNumeral fun hw => not_exists.2 hnone (isNumeral_iff.1 hw)

/-- **What integer literals are**: the sign and the longest word that stand ahead. They are read
where that word is a numeral, with the value of its digits and up to the end of the word; only
decimal digits can be too many. The search that tries base after base, the longest front first and
the sign before no sign, stops at the same literal. -/
theorem integer_reply_iff (c : Cursor) :
    let mark := sign c.rest
    let word := wordAhead c.rest
    let after := c.advance (mark ++ word).length
    c.rest = mark ++ word ++ after.rest ∧ startsWord after.rest = false ∧
      (∀ reply, integer c = reply ↔ IntegerReply mark word after reply) ∧
      integer? c.rest =
        (integerFronts c.rest).find? fun found => !startsWord (c.rest.drop found.length) := by
  intro mark word after
  obtain ⟨tail, htext, htail⟩ := wordAhead_split c.rest
  have hafter : after.rest = tail := advance_rest_of_append htext
  refine ⟨by rw [hafter]; exact htext, by rw [hafter]; exact htail, fun reply => ⟨?_, ?_⟩,
    integer?_eq_find? c.rest⟩
  · rintro rfl
    obtain ⟨reply, hreply⟩ := exists_integerReply mark word after
    rwa [hreply.integer]
  · exact IntegerReply.integer

end Parser

end MipsSource
