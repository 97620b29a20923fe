import MipsSource.Proofs.SpelledLines

/-!
# Lists of integers

A directive with a list of integers takes numbers in any base, each possibly with a count after a
colon, and references to labels where its elements are words. Every number has a range. A list
whose numbers all lie in their ranges is read as one datum for each element; otherwise reading ends
with an error at the first number, in the order of the text, that does not:

* `Spelling.IsElement`, `Spelling.IsIntegerList`: the spellings, with their data and numbers.
* `verdict`: the value, or the error at the first number that is out of range.
* `Parser.element_spelled`, `Parser.directive_spelled`: what an element and a directive are read as.
-/

set_option autoImplicit false

namespace MipsSource

open Lexeme (gap)
open Spelling

/-! ## Numbers with ranges -/

/-- A number in a line: its place, and the name and the bounds of the field that it has to fit. -/
structure BoundedNumber where
  place : Nat
  value : Int
  what : String
  lo : Int
  hi : Int
deriving DecidableEq, Repr

namespace BoundedNumber

/-- Does the number lie within its bounds? -/
def fits (n : BoundedNumber) : Bool :=
  n.lo ≤ n.value && n.value ≤ n.hi

/-- The error that a number does not fit, in a line that starts at a place. -/
def error (n : BoundedNumber) (line col : Int) : SourceError where
  cause := .valueRange n.value n.what n.lo n.hi
  line := some line
  col := some (col + n.place)

end BoundedNumber

/-- The first number that does not fit. -/
def offence? (numbers : List BoundedNumber) : Option BoundedNumber :=
  numbers.find? fun n => !n.fits

/-- A value, or the error at the first of its numbers that does not fit. -/
def verdict {α : Type} (line col : Int) (value : α) (numbers : List BoundedNumber) :
    Except Fault α :=
  match offence? numbers with
  | none => .ok value
  | some n => .error (.ofError (n.error line col))

theorem offence?_cons_of_fits {n : BoundedNumber} {numbers : List BoundedNumber}
    (h : n.fits = true) : offence? (n :: numbers) = offence? numbers := by
  rw [offence?, List.find?_cons, h]
  rfl

theorem offence?_cons_of_not_fits {n : BoundedNumber} {numbers : List BoundedNumber}
    (h : n.fits = false) : offence? (n :: numbers) = some n := by
  rw [offence?, List.find?_cons, h]
  rfl

/-- What is said of each element in turn is said of all of them. -/
theorem mapM_verdict {α : Type} (line col : Int) (elements : List (α × List BoundedNumber)) :
    elements.mapM (fun e => verdict line col e.1 e.2) =
      verdict line col (elements.map (·.1)) (elements.flatMap (·.2)) := by
  induction elements with
  | nil => rfl
  | cons e elements ih =>
    rw [List.mapM_cons, ih, verdict, verdict, verdict, List.flatMap_cons, offence?, offence?,
      offence?, List.find?_append]
    cases e.2.find? fun n => !n.fits with
    | some n => rfl
    | none => cases (elements.flatMap (·.2)).find? fun n => !n.fits <;> rfl

/-! ## Spellings -/

namespace Spelling

/-- The field of a count. -/
def countNumber (place : Nat) (n : Int) : BoundedNumber where
  place := place
  value := n
  what := "una repetición"
  lo := 1
  hi := 2147483647

/-- An element of a list of integers from `lo` to `hi`, with its numbers. -/
inductive IsElement (what : String) (lo hi : Int) (symbols : Bool) (k : Nat) :
    List Char → Datum × List BoundedNumber → Prop
  | int {text : List Char} {v : Int} :
      IsInteger text v →
      IsElement what lo hi symbols k text
        (.int v, [{ place := k, value := v, what := what, lo := lo, hi := hi }])
  | repeated {text count : List Char} {v n : Int} (a b : Nat) :
      IsInteger text v → IsInteger count n →
      IsElement what lo hi symbols k (text ++ (gap a ++ ':' :: gap b ++ count))
        (.repeated v n,
          [{ place := k, value := v, what := what, lo := lo, hi := hi },
           countNumber (k + text.length + (a + 1 + b)) n])
  | symbol {text : List Char} {s : Symbol} :
      symbols = true → IsSymbol text s → IsElement what lo hi symbols k text (.symbol s, [])

/-- **The spellings of a directive with a list of integers**, and the numbers in it in the order of
the text. -/
inductive IsIntegerList : List Char → Directive → List BoundedNumber → Prop
  | intro {name : String} {lo hi : Int} {symbols : Bool} {n : Nat} {list ending : List Char}
      {elements : List (Datum × List BoundedNumber)} :
      (name, lo, hi, symbols) ∈ Directive.integerLists → 0 < n →
      IsList (IsElement name lo hi symbols) (name.toList.length + n) list elements →
      IsEnding ending →
      IsIntegerList (name.toList ++ (gap n ++ (list ++ ending)))
        { name := name, args := elements.map (·.1) } (elements.flatMap (·.2))

variable {text : List Char}

theorem IsInteger.no_newline {v : Int} (h : IsInteger text v) : '\n' ∉ text :=
  (Parser.integer_reads h rfl).no_newline
    ((Parser.integer_composed inLine_holdsOfLexemes.toHoldsOfWords).ensures inLine_additive)

theorem IsSymbol.no_newline {s : Symbol} (h : IsSymbol text s) : '\n' ∉ text :=
  (Parser.symbol_reads h rfl rfl).no_newline
    ((Parser.symbol_composed inLine_holdsOfLexemes.toHoldsOfWords).ensures inLine_additive)

section
variable {what : String} {lo hi : Int} {symbols : Bool} {k : Nat}
  {e : Datum × List BoundedNumber} (h : IsElement what lo hi symbols k text e)
include h

theorem IsElement.no_newline : '\n' ∉ text := by
  cases h with
  | int hv => exact hv.no_newline
  | repeated a b hv hn => simp [hv.no_newline, hn.no_newline, not_mem_gap]
  | symbol _ hs => exact hs.no_newline

theorem IsElement.head : ∃ x rest, text = x :: rest ∧ x ≠ ' ' := by
  cases h with
  | int hv =>
    obtain ⟨x, rest, rfl, hx⟩ := hv.head
    exact ⟨x, rest, rfl, Lexeme.ne_of_test hx (by decide)⟩
  | repeated a b hv hn =>
    obtain ⟨x, rest, rfl, hx⟩ := hv.head
    exact ⟨x, _, rfl, Lexeme.ne_of_test hx (by decide)⟩
  | symbol _ hs =>
    obtain ⟨x, rest, rfl, hx⟩ := hs.head
    exact ⟨x, rest, rfl, Lexeme.ne_of_test hx (by decide)⟩

end

/-! ## Where the numbers stand -/

/-- The numbers stand in the text one after another, where the text itself stands `k` characters
into its line. -/
structure Contains (k : Nat) (text : List Char) (numbers : List BoundedNumber) : Prop where
  inOrder : numbers.Pairwise fun a b => a.place < b.place
  spelled : ∀ n ∈ numbers, ∃ front word back,
    text = front ++ (word ++ back) ∧ n.place = k + front.length ∧ IsInteger word n.value

theorem contains_nil (k : Nat) (text : List Char) : Contains k text [] :=
  ⟨.nil, fun _ hn => by cases hn⟩

theorem IsInteger.contains {k : Nat} {n : BoundedNumber} (h : IsInteger text n.value)
    (hk : n.place = k) : Contains k text [n] := by
  refine ⟨List.pairwise_singleton _ _, fun m hm => ?_⟩
  rw [List.mem_singleton.1 hm]
  exact ⟨[], text, [], by simp, hk, h⟩

/-- A number in a text stands before what follows the text. -/
theorem Contains.lt {k : Nat} {numbers : List BoundedNumber} (h : Contains k text numbers)
    {n : BoundedNumber} (hn : n ∈ numbers) : n.place < k + text.length := by
  obtain ⟨front, word, back, rfl, hplace, hv⟩ := h.spelled n hn
  obtain ⟨x, rest, rfl, -⟩ := hv.head
  simp only [List.length_append, List.length_cons]
  omega

theorem Contains.le {k : Nat} {numbers : List BoundedNumber} (h : Contains k text numbers)
    {n : BoundedNumber} (hn : n ∈ numbers) : k ≤ n.place := by
  obtain ⟨front, -, -, -, hplace, -⟩ := h.spelled n hn
  omega

theorem Contains.append {k : Nat} {more : List Char} {numbers others : List BoundedNumber}
    (h : Contains k text numbers) (h' : Contains (k + text.length) more others) :
    Contains k (text ++ more) (numbers ++ others) := by
  refine ⟨List.pairwise_append.2 ⟨h.inOrder, h'.inOrder, fun a ha b hb => ?_⟩, fun n hn => ?_⟩
  · exact Nat.lt_of_lt_of_le (h.lt ha) (h'.le hb)
  · rcases List.mem_append.1 hn with hn | hn
    · obtain ⟨front, word, back, rfl, hplace, hv⟩ := h.spelled n hn
      exact ⟨front, word, back ++ more, by simp, hplace, hv⟩
    · obtain ⟨front, word, back, rfl, hplace, hv⟩ := h'.spelled n hn
      exact ⟨text ++ front, word, back, by simp, by simp [hplace, Nat.add_assoc], hv⟩

theorem Contains.after {k : Nat} {numbers : List BoundedNumber} (front : List Char)
    (h : Contains (k + front.length) text numbers) : Contains k (front ++ text) numbers :=
  (contains_nil k front).append h

theorem IsElement.contains {what : String} {lo hi : Int} {symbols : Bool} {k : Nat}
    {e : Datum × List BoundedNumber} (h : IsElement what lo hi symbols k text e) :
    Contains k text e.2 := by
  cases h with
  | int hv => exact hv.contains rfl
  | symbol => exact contains_nil k text
  | @repeated text count v n a b hv hn =>
    have hfirst : Contains k text [⟨k, v, what, lo, hi⟩] := hv.contains rfl
    refine hfirst.append (.after _ (hn.contains ?_))
    simp [countNumber]
    omega

theorem IsListTail.contains {α : Type} {E : Nat → List Char → α × List BoundedNumber → Prop}
    (hE : ∀ k text e, E k text e → Contains k text e.2) {k : Nat}
    {elements : List (α × List BoundedNumber)} (h : IsListTail E k text elements) :
    Contains k text (elements.flatMap (·.2)) := by
  induction h with
  | nil => exact contains_nil _ _
  | @cons k text rest e elements a b he _ ih =>
    rw [List.flatMap_cons]
    refine .after _ ?_
    rw [length_separator]
    exact (hE _ _ _ he).append ih

theorem IsList.contains {α : Type} {E : Nat → List Char → α × List BoundedNumber → Prop}
    (hE : ∀ k text e, E k text e → Contains k text e.2) {k : Nat}
    {elements : List (α × List BoundedNumber)} (h : IsList E k text elements) :
    Contains k text (elements.flatMap (·.2)) := by
  obtain ⟨he, hrest⟩ := h
  rw [List.flatMap_cons]
  exact (hE _ _ _ he).append (hrest.contains hE)

/-- The numbers of a list of integers are given in the order of the text. -/
theorem IsIntegerList.contains {d : Directive} {numbers : List BoundedNumber}
    (h : IsIntegerList text d numbers) : Contains 0 text numbers := by
  obtain ⟨hmem, hn, hlist, he⟩ := h
  rename_i name lo hi symbols n list ending elements
  have hnumbers := (hlist.contains fun _ _ _ he => he.contains).append (contains_nil _ ending)
  rw [List.append_nil] at hnumbers
  refine .after _ (.after _ ?_)
  rwa [Nat.zero_add, Lexeme.length_gap]

end Spelling

namespace Parser

/-! ## Elements -/

section
variable {c : Cursor} (hc : c.past = 0) {k : Nat} {text u : List Char}
include hc

/-- An integer that stands `k` characters ahead. -/
theorem placedInteger_spelled {v : Int} (h : IsInteger text v) (ht : Lexeme.startsWord u = false)
    (hr : c.rest.drop k = text ++ u) :
    placedInteger (c.advance k) = .matched (c.advance k, v) (c.advance (k + text.length)) := by
  have hplace : position (c.advance k) = .matched (c.advance k) (c.advance k) := rfl
  obtain ⟨_, rfl, hm⟩ := integer_reads h ht (c.advance k) (Cursor.advance_past hc k)
    (by rw [Cursor.advance_rest, hr])
  rw [placedInteger, bind_matched hplace, bind_matched hm, Cursor.advance_advance]
  rfl

/-- The error at a number `k` characters ahead, on the same line. -/
theorem failRange_inLine {α : Type} (hk : InLine c.rest k) (hlen : k ≤ c.rest.length)
    (n : BoundedNumber) (hn : n.place = k) (after : Cursor) :
    (failRange (c.advance k) n.value n.what (n.lo, n.hi) : Parser α) after =
      .failed (.ofError (n.error c.line c.col)) := by
  obtain ⟨hl, hcol⟩ := Cursor.advance_inLine hc hlen hk
  rw [failRange, hl, hcol, ← hn]
  rfl

/-- What is left of a list element once its number is known to fit. -/
theorem repetition_refuses (ht : Trails u) (hr : c.rest.drop k = u) :
    optional repetition (c.advance k) = .matched none (c.advance k) := by
  obtain ⟨n, rest, rfl, hrest⟩ := ht
  have hnone : repetition.Refuses (gap n ++ rest) := by
    refine .bind (separator_refuses (fun x hx he => ?_) fun hp => ?_)
    · exact absurd (he ▸ hrest x hx) (by decide)
    · obtain ⟨more, rfl⟩ := hp
      exact absurd (hrest ':' rfl) (by decide)
  obtain ⟨_, rfl, hm⟩ := Reads.optional_none hnone (c.advance k) (Cursor.advance_past hc k)
    (by rw [Cursor.advance_rest, hr]; rfl)
  exact hm

theorem repetition_spelled {a b : Nat} {n : Int} (h : IsInteger text n) (ht : Trails u)
    (hr : c.rest.drop k = gap a ++ ':' :: gap b ++ (text ++ u)) :
    optional repetition (c.advance k) =
      .matched (some (c.advance (k + (a + 1 + b)), n))
        (c.advance (k + (a + 1 + b) + text.length)) := by
  obtain ⟨x, rest, hx, hstart⟩ := h.head
  have hspace : ∀ d ∈ (text ++ u).head?, d ≠ ' ' := by
    rw [hx]
    intro d hd
    cases hd
    exact Lexeme.ne_of_test hstart (by decide)
  obtain ⟨_, -, hcolon⟩ := separator_reads (show ":".toList = [':'] from rfl) (by decide) a b hspace
    (c.advance k) (Cursor.advance_past hc k) (by rw [Cursor.advance_rest, hr])
  have hcount := placedInteger_spelled hc h ht.startsWord (drop_of_append hr)
  rw [length_separator] at hcolon hcount
  refine orElse_matched (map_matched ?_)
  rw [repetition, preceded, bind_matched hcolon, Cursor.advance_advance, hcount]

end

section
variable {what : String} {bits : Nat} (hbits : 0 < bits) {c : Cursor} (hc : c.past = 0)
include hbits hc

omit hc in
theorem fits_number (k : Nat) (v : Int) :
    BoundedNumber.fits ⟨k, v, what, (Bits.range bits).1, (Bits.range bits).2⟩ =
      Bits.fits bits v := by
  rw [Bool.eq_iff_iff, Bits.fits_iff hbits, BoundedNumber.fits, Bool.and_eq_true, decide_eq_true_eq,
    decide_eq_true_eq]

section
variable {k : Nat} {text u : List Char} {v : Int} (hv : IsInteger text v)
  (hword : Lexeme.startsWord u = false) (hr : c.rest.drop k = text ++ u)
include hv hword hr

theorem integerDatum_outside (hk : InLine c.rest k)
    (hout : BoundedNumber.fits ⟨k, v, what, (Bits.range bits).1, (Bits.range bits).2⟩ = false) :
    integerDatum what bits (c.advance k) =
      .failed (.ofError (BoundedNumber.error
        ⟨k, v, what, (Bits.range bits).1, (Bits.range bits).2⟩ c.line c.col)) := by
  have hfits := (fits_number hbits k v).symm.trans hout
  rw [integerDatum, bind_matched (placedInteger_spelled hc hv hword hr)]
  simp only [hfits, Bool.false_eq_true, if_false]
  refine failRange_inLine hc hk ?_ ⟨k, v, what, _, _⟩ rfl _
  obtain ⟨x, rest, rfl, -⟩ := hv.head
  have := length_of_drop hr (List.cons_ne_nil x rest)
  omega

theorem integerDatum_inside {found : Option (Cursor × Int)} {after : Cursor}
    (hin : BoundedNumber.fits ⟨k, v, what, (Bits.range bits).1, (Bits.range bits).2⟩ = true)
    (hfound : optional repetition (c.advance (k + text.length)) = .matched found after) :
    integerDatum what bits (c.advance k) =
      (match found with
      | none => pure (.int v)
      | some (start, count) =>
        if 1 ≤ count ∧ count ≤ Directive.maxCount then pure (.repeated v count)
        else failRange start count "una repetición" (1, Directive.maxCount) :
        Parser Datum) after := by
  have hfits := (fits_number hbits k v).symm.trans hin
  rw [integerDatum, bind_matched (placedInteger_spelled hc hv hword hr)]
  simp only [hfits, if_true]
  rw [bind_matched hfound]
  cases found <;> rfl

end

omit hbits in
/-- The count is a number of its own, further along the line; it is checked last. -/
theorem count_checked {k : Nat} {text u : List Char} {v n : Int} (hn : IsInteger text n)
    (hk : InLine c.rest k) (hr : c.rest.drop k = text ++ u) (after : Cursor) :
    (if 1 ≤ n ∧ n ≤ Directive.maxCount then pure (.repeated v n)
      else failRange (c.advance k) n "una repetición" (1, Directive.maxCount) : Parser Datum)
        after = ofExcept (verdict c.line c.col (.repeated v n) [countNumber k n]) after := by
  have hrange : (countNumber k n).fits = true ↔ 1 ≤ n ∧ n ≤ Directive.maxCount := by
    rw [BoundedNumber.fits, Bool.and_eq_true, decide_eq_true_eq, decide_eq_true_eq]
    rfl
  rw [verdict]
  cases hcount : (countNumber k n).fits with
  | true =>
    rw [if_pos (hrange.1 hcount), offence?_cons_of_fits hcount]
    rfl
  | false =>
    rw [if_neg (by rw [← hrange, hcount]; exact Bool.false_ne_true),
      offence?_cons_of_not_fits hcount]
    obtain ⟨x, more, rfl, -⟩ := hn.head
    have := length_of_drop hr (List.cons_ne_nil x more)
    exact failRange_inLine hc hk (by omega) (countNumber k n) rfl _

theorem integerDatum_spelled {symbols : Bool} {k : Nat} {text u : List Char}
    {e : Datum × List BoundedNumber}
    (h : IsElement what (Bits.range bits).1 (Bits.range bits).2 symbols k text e) (ht : Trails u)
    (hk : InLine c.rest k) (hr : c.rest.drop k = text ++ u) (hnumber : e.2 ≠ []) :
    integerDatum what bits (c.advance k) =
      ofExcept (verdict c.line c.col e.1 e.2) (c.advance (k + text.length)) := by
  cases h with
  | symbol => exact absurd rfl hnumber
  | @int _ v hv =>
    cases hin : BoundedNumber.fits ⟨k, v, what, (Bits.range bits).1, (Bits.range bits).2⟩ with
    | false =>
      rw [integerDatum_outside hbits hc hv ht.startsWord hr hk hin, verdict,
        offence?_cons_of_not_fits hin]
      rfl
    | true =>
      rw [integerDatum_inside hbits hc hv ht.startsWord hr hin
        (repetition_refuses hc ht (drop_of_append hr)), verdict, offence?_cons_of_fits hin]
      rfl
  | @repeated text count v n a b hv hn =>
    have hword : Lexeme.startsWord (gap a ++ ':' :: gap b ++ (count ++ u)) = false := by
      cases a <;> rfl
    replace hr : c.rest.drop k = text ++ (gap a ++ ':' :: gap b ++ (count ++ u)) := by
      rw [hr]
      simp
    have hrest := drop_of_append hr
    cases hin : BoundedNumber.fits ⟨k, v, what, (Bits.range bits).1, (Bits.range bits).2⟩ with
    | false =>
      rw [integerDatum_outside hbits hc hv hword hr hk hin, verdict, offence?_cons_of_not_fits hin]
      rfl
    | true =>
      have hfound := repetition_spelled hc hn ht hrest
      have hk' := (hk.append hr hv.no_newline).append hrest (by simp [not_mem_gap])
      have hr' := drop_of_append hrest
      rw [length_separator] at hk' hr'
      rw [integerDatum_inside hbits hc hv hword hr hin hfound, verdict, offence?_cons_of_fits hin]
      have hlen : k + (text ++ (gap a ++ ':' :: gap b ++ count)).length =
          k + text.length + (a + 1 + b) + count.length := by
        rw [List.length_append, List.length_append, length_separator]
        omega
      rw [hlen]
      exact count_checked hc hn hk' hr' _

theorem element_spelled {symbols : Bool} (k : Nat) (text : List Char)
    (e : Datum × List BoundedNumber) (u : List Char)
    (h : IsElement what (Bits.range bits).1 (Bits.range bits).2 symbols k text e) (ht : Trails u)
    (hk : InLine c.rest k) (hr : c.rest.drop k = text ++ u) :
    element what bits symbols (c.advance k) =
      ofExcept (verdict c.line c.col e.1 e.2) (c.advance (k + text.length)) := by
  by_cases hnumber : e.2 = []
  · cases h with
    | int => cases hnumber
    | repeated => cases hnumber
    | symbol hsymbols hs =>
      obtain ⟨x, rest, hx, hstart⟩ := hs.head
      have hrefuses : (integerDatum what bits).Refuses (text ++ u) := by
        rw [hx]
        exact (placedInteger_refuses (Lexeme.not_sign_of_wordStart hstart)
          (Lexeme.not_digit_of_wordStart hstart)).bind
      have hread : (orElse (integerDatum what bits) (Datum.symbol <$> symbol)).Reads text u
          (· = .symbol _) :=
        .orElse_right hrefuses
          ((symbol_reads hs ht.startsWord ht.symbolOffset?).map fun v hv => by rw [hv])
      obtain ⟨_, rfl, hm⟩ := hread (c.advance k) (Cursor.advance_past hc k)
        (by rw [Cursor.advance_rest, hr])
      rw [Cursor.advance_advance] at hm
      rw [element, if_pos hsymbols, hm]
      rfl
  · have hdatum := integerDatum_spelled hbits hc h ht hk hr hnumber
    rw [element]
    split
    · rw [orElse, hdatum]
      cases verdict c.line c.col e.1 e.2 <;> rfl
    · exact hdatum

end

end Parser

/-! ## Directives -/

namespace Lexeme

/-- Is the text a point and a name? -/
def isDirectiveName : List Char → Bool
  | '.' :: c :: rest => isWordStart c && rest.all isNameChar
  | _ => false

theorem directiveName?_name {name tail : List Char} (h : isDirectiveName name = true)
    (ht : startsWord tail = false) : directiveName? (name ++ tail) = some name := by
  rw [isDirectiveName.eq_def] at h
  split at h
  · rename_i c rest
    simp only [Bool.and_eq_true, List.all_eq_true] at h
    have hname : ∀ x, isNameChar x = true → isWordChar x = true := fun x hx => by
      simp [isWordChar, hx]
    rw [List.cons_append, List.cons_append, directiveName?, takeWhile_word hname h.2 ht,
      dropWhile_word hname h.2 ht, ht, h.1]
    rfl
  · cases h

theorem isDirectiveName_of_form? {name : String} {form : DirectiveForm}
    (h : Directive.form? name = some form) : isDirectiveName name.toList = true := by
  have hall : ∀ entry ∈ Directive.table, isDirectiveName entry.1.toList = true := by decide
  exact hall _ (Parser.form?_mem h)

theorem inline_of_isDirectiveName {name : List Char} (h : isDirectiveName name = true) :
    IsInline name := by
  rw [isDirectiveName.eq_def] at h
  split at h
  · rename_i c rest
    simp only [Bool.and_eq_true, List.all_eq_true] at h
    refine .of_all (p := isWordChar) (by decide) (by simp) fun x hx => ?_
    rcases List.mem_cons.1 hx with rfl | hx
    · decide
    · rcases List.mem_cons.1 hx with rfl | hx
      · exact isWordChar_of_wordStart h.1
      · simp [isWordChar, h.2 x hx]
  · cases h

end Lexeme

/-- The bounds of a list of integers are those of its size in bits. -/
theorem Directive.form?_of_integerLists {name : String} {lo hi : Int} {symbols : Bool}
    (h : (name, lo, hi, symbols) ∈ integerLists) :
    ∃ bits, 0 < bits ∧ form? name = some (.integers bits symbols) ∧ Bits.range bits = (lo, hi) := by
  simp only [integerLists, List.mem_cons, Prod.mk.injEq, List.not_mem_nil, or_false] at h
  rcases h with ⟨rfl, rfl, rfl, rfl⟩ | ⟨rfl, rfl, rfl, rfl⟩ | ⟨rfl, rfl, rfl, rfl⟩
  · exact ⟨8, by decide, rfl, rfl⟩
  · exact ⟨16, by decide, rfl, rfl⟩
  · exact ⟨32, by decide, rfl, rfl⟩

namespace Parser

variable {tail : List Char}

/-- **Every spelling of a list of integers is read as its data**, or fails at its first number out
of range, wherever it stands before the end of a line. -/
theorem directive_spelled {text : List Char} {d : Directive} {numbers : List BoundedNumber}
    (h : IsIntegerList text d numbers) (ht : Lexeme.AtLineEnd tail) {c : Cursor} (hc : c.past = 0)
    (hr : c.rest = text ++ tail) :
    directive c = ofExcept (verdict c.line c.col d numbers) (c.advance text.length) := by
  obtain ⟨hmem, hn, hlist, he⟩ := h
  rename_i name lo hi symbols n list ending elements
  obtain ⟨bits, hbits, hform, hrange⟩ := Directive.form?_of_integerLists hmem
  obtain ⟨rfl, rfl⟩ : (Bits.range bits).1 = lo ∧ (Bits.range bits).2 = hi := by simp [hrange]
  simp only [List.append_assoc] at hr
  -- the name, which the spaces after it end
  have hname := Lexeme.isDirectiveName_of_form? hform
  have hgap : Lexeme.startsWord (gap n ++ (list ++ (ending ++ tail))) = false := by
    obtain ⟨m, rfl⟩ : ∃ m, n = m + 1 := ⟨n - 1, by omega⟩
    rfl
  obtain ⟨found, hfound, hword⟩ := word_reads _ (Lexeme.directiveName?_name hname hgap) c hc hr
  rw [String.ofList_toList] at hfound
  subst hfound
  have hknown : ofOption (Directive.form? found) (c.advance found.toList.length) =
      .matched (.integers bits symbols) (c.advance found.toList.length) := by
    rw [hform]
    rfl
  -- the elements
  have hk : InLine c.rest found.toList.length := by
    rw [InLine, hr, List.take_left]
    exact (Lexeme.inline_of_isDirectiveName hname).no_newline
  have hr' : c.rest.drop found.toList.length = gap n ++ (list ++ (ending ++ tail)) := by
    rw [hr, List.drop_left]
  have hargs := spacedList_spelled hc (element_ensures found bits symbols).forward
    (fun _ _ _ h => h.head) (fun _ _ _ h => h.no_newline) (element_spelled hbits hc) hn hlist he ht
    hk hr'
  rw [mapM_verdict, verdict] at hargs
  rw [directive, bind_matched hword, bind_matched hknown, directiveArgs, verdict]
  cases hoffence : offence? (elements.flatMap (·.2)) with
  | some number =>
    rw [hoffence] at hargs
    exact bind_failed hargs
  | none =>
    rw [hoffence] at hargs
    have hrest : (c.advance (found.toList.length + (n + list.length))).rest = ending ++ tail := by
      rw [Cursor.advance_rest, ← List.drop_drop, hr', ← List.append_assoc,
        List.drop_left' (by simp)]
    obtain ⟨_, -, hend⟩ := statementEnd_reads he ht _ (Cursor.advance_past hc _) hrest
    rw [bind_matched hargs, bind_matched hend, Cursor.advance_advance]
    simp only [List.length_append, Lexeme.length_gap, Nat.add_assoc]
    rfl

end Parser

/-! ## In a text -/

theorem Spelling.IsListTail.forall {α : Type} {E : Nat → List Char → α → Prop} {P : α → Prop}
    (hE : ∀ k text v, E k text v → P v) {k : Nat} {text : List Char} {vs : List α}
    (h : IsListTail E k text vs) : ∀ v ∈ vs, P v := by
  induction h with
  | nil => simp
  | cons a b hv _ ih => exact List.forall_mem_cons.2 ⟨hE _ _ _ hv, ih⟩

theorem Spelling.IsList.forall {α : Type} {E : Nat → List Char → α → Prop} {P : α → Prop}
    (hE : ∀ k text v, E k text v → P v) {k : Nat} {text : List Char} {vs : List α}
    (h : IsList E k text vs) : ∀ v ∈ vs, P v := by
  obtain ⟨hv, hrest⟩ := h
  exact List.forall_mem_cons.2 ⟨hE _ _ _ hv, hrest.forall hE⟩

theorem Spelling.IsElement.bounds {what : String} {lo hi : Int} {symbols : Bool} {k : Nat}
    {text : List Char} {e : Datum × List BoundedNumber} (h : IsElement what lo hi symbols k text e)
    (hlo : IsImmediate lo) (hhi : IsImmediate hi) :
    ∀ n ∈ e.2, IsImmediate n.lo ∧ IsImmediate n.hi := by
  have hcount : IsImmediate 1 ∧ IsImmediate 2147483647 := by decide
  cases h with
  | int => simp [hlo, hhi]
  | repeated => simp [hlo, hhi, countNumber, hcount]
  | symbol => simp

/-- An error at a number of the list can be written whenever the number can. -/
theorem Spelling.IsIntegerList.ofError {spelled : List Char} {d : Directive}
    {numbers : List BoundedNumber} (h : IsIntegerList spelled d numbers) {n : BoundedNumber}
    (hn : n ∈ numbers) (hshow : Numeral.isShowable n.value = true) (line col : Int) :
    Fault.ofError (n.error line col) = .source (n.error line col) := by
  obtain ⟨hmem, -, hlist, -⟩ := h
  obtain ⟨e, he, hn⟩ := List.mem_flatMap.1 hn
  have htable : ∀ entry ∈ Directive.integerLists,
      IsImmediate entry.2.1 ∧ IsImmediate entry.2.2.1 := by decide
  obtain ⟨hlo, hhi⟩ := htable _ hmem
  obtain ⟨hlo, hhi⟩ := hlist.forall (fun _ _ _ h => h.bounds hlo hhi) e he n hn
  have hall : (n.error line col).cause.numbers.all Numeral.isShowable = true := by
    simp [BoundedNumber.error, Cause.numbers, hshow, hlo.showable, hhi.showable]
  rw [Fault.ofError, if_pos hall]

theorem Spelling.IsIntegerList.ne_nil {spelled : List Char} {d : Directive}
    {numbers : List BoundedNumber} (h : IsIntegerList spelled d numbers) : spelled ≠ [] := by
  obtain ⟨-, hn, -, -⟩ := h
  intro hnil
  have hlen := congrArg List.length hnil
  simp only [List.length_append, Lexeme.length_gap, List.length_nil] at hlen
  omega

/-- **The grammar of lists of integers is complete**, and their numbers are checked in the order of
the text. A list of any elements, each in any of its spellings, with spaces after the name, around
commas and colons and at the end, and with or without a semicolon, is read as one datum for each
element if every number fits; otherwise it fails at the first number that does not, provided that
this number can be written. -/
theorem Spelling.integerList_complete {text spelled tail : List Char} {offset : Nat}
    {line col : Int} {d : Directive} {numbers : List BoundedNumber}
    (h : IsIntegerList spelled d numbers) (ht : Lexeme.AtLineEnd tail)
    (hr : text.drop offset = spelled ++ tail)
    (hshow : ∀ n ∈ offence? numbers, (Nat.toDigits 10 n.value.natAbs).length ≤ 4300) :
    Contains 0 spelled numbers ∧
      Parser.directive (.ofText text offset line col) =
        match offence? numbers with
        | none => .matched d (.ofText text (offset + spelled.length) line (col + spelled.length))
        | some n => .failed (.source (n.error line col)) := by
  refine ⟨h.contains, ?_⟩
  have hpast := Cursor.ofText_past_of_drop hr h.ne_nil line col
  have hm := Parser.directive_spelled h ht hpast hr
  rw [verdict] at hm
  cases hoffence : offence? numbers with
  | none =>
    rw [hoffence] at hm
    have hline := (Parser.directive_composed inLine_holdsOfLexemes).ensures inLine_additive
    exact Parser.matched_ofText hr h.ne_nil hline hm
  | some n =>
    rw [hoffence] at hm
    have hwrite := (Numeral.isShowable_iff n.value).2 (hshow n hoffence)
    rw [hm]
    exact congrArg Reply.failed (h.ofError (List.mem_of_find?_eq_some hoffence) hwrite line col)

theorem Spelling.integerList_complete_word :
    Parser.directive (.ofText "m: .word  -0x1F : 3 , x - 4,07 ;\nadd".toList 3 1 4) =
        .matched { name := ".word", args :=
            [.repeated (-31) 3, .symbol { name := "x", offset := -4 }, .int 7] }
          (.ofText "m: .word  -0x1F : 3 , x - 4,07 ;\nadd".toList 32 1 33) ∧
      Parser.directive (.ofText ".byte 1, 300 : 0".toList 0 1 1) =
        .failed (.source
          { cause := .valueRange 300 ".byte" (-128) 255, line := some 1, col := some 10 }) := by
  have hminus : (['-'], true) ∈ signs := by decide
  have hbare : (([] : List Char), false) ∈ signs := by decide
  -- the numbers, digit by digit
  have hdigit : ∀ {c : Char} {d : Nat}, (c, d) ∈ digits → d < 10 → IsInteger [c] d :=
    fun hc hd => .intro hbare (.decimal (.single hc hd) (by simp [Numeral.maxDigits]))
  have h1 : IsDigits 16 ['1'] 1 := .single (by decide) (by decide)
  have h31 : IsDigits 16 ['1', 'F'] 31 := .snoc (d := 15) h1 (by decide) (by decide)
  have hhex : IsMagnitude Numeral.baseMarks ['0', 'x', '1', 'F'] 31 := .marked (by decide) h31
  have h0 : IsDigits 10 ['0'] 0 := .single (by decide) (by decide)
  have h7 : IsDigits 10 ['0', '7'] 7 := .snoc (d := 7) h0 (by decide) (by decide)
  have h3 : IsDigits 10 ['3'] 3 := .single (by decide) (by decide)
  have h30 : IsDigits 10 ['3', '0'] 30 := .snoc (d := 0) h3 (by decide) (by decide)
  have h300 : IsDigits 10 ['3', '0', '0'] 300 := .snoc (d := 0) h30 (by decide) (by decide)
  -- the elements
  have hnegative : IsInteger ['-', '0', 'x', '1', 'F'] (-31) := .intro hminus hhex
  have hseven : IsInteger ['0', '7'] 7 := .intro hbare (.decimal h7 (by decide))
  have hmany : IsInteger ['3', '0', '0'] 300 := .intro hbare (.decimal h300 (by decide))
  have hname : IsName "x" := by decide
  have h4 : IsDigits 10 ['4'] 4 := .single (by decide) (by decide)
  have hx : IsSymbol "x - 4".toList { name := "x", offset := -4 } :=
    .shifted 1 1 hname hminus (.decimal h4 (by decide))
  have hthree : IsInteger ['3'] 3 := hdigit (by decide) (by decide)
  have hone : IsInteger ['1'] 1 := hdigit (by decide) (by decide)
  have hzero : IsInteger ['0'] 0 := hdigit (by decide) (by decide)
  have hwords : IsList (IsElement ".word" (-2147483648) 4294967295 true) 7
      "-0x1F : 3 , x - 4,07".toList _ :=
    .intro (IsElement.repeated 1 1 hnegative hthree)
      (.cons 1 1 (IsElement.symbol rfl hx) (.cons 0 0 (IsElement.int hseven) .nil))
  have hbytes : IsList (IsElement ".byte" (-128) 255 false) 6 "1, 300 : 0".toList _ :=
    .intro (IsElement.int hone) (.cons 0 1 (IsElement.repeated 1 1 hmany hzero) .nil)
  have hword : IsIntegerList ".word  -0x1F : 3 , x - 4,07 ;".toList _ _ :=
    .intro (n := 2) (by decide) (by decide) hwords (.semicolon 1)
  have hbyte : IsIntegerList ".byte 1, 300 : 0".toList _ _ :=
    .intro (n := 1) (by decide) (by decide) hbytes (.spaces 0)
  exact ⟨(integerList_complete hword (Lexeme.atLineEnd_newline "add".toList) rfl (by decide)).2,
    (integerList_complete hbyte Lexeme.atLineEnd_nil rfl (by decide)).2⟩

end MipsSource
