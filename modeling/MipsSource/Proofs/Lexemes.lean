import MipsSource.Lexeme.Basic

/-!
# Where lexemes end

A scanner gets all the text ahead, but it decides on a piece of it. Words, numbers and registers
stop at any character that is not ink (`Breaks`), runs of spaces and what they are part of at any
that is not live (`Ends`); quoted literals stop at the end of the line (`AtLineEnd`). So what
follows the stop is never seen:

* `identifier?_append`, `integer?_append`, `decimal?_append`, ...: a scanner answers the same with
  and without a tail that ends its lexemes.
* `character?_append`, `string?_append`: the same for quoted literals and a tail at a line end.
* `identifier?_spec`, `integer?_spec`, ...: what a scanner finds lies within the text.
-/

set_option autoImplicit false

namespace MipsSource.Lexeme

/-- The characters that words, numbers and registers are made of. -/
def isInk (c : Char) : Bool :=
  isWordChar c || Numeral.isSign c || c = '$'

/-- The characters that words, numbers, registers and runs of spaces are made of. -/
def isLive (c : Char) : Bool :=
  isWordChar c || Numeral.isSign c || c = ' ' || c = '$'

/-- No word, number or register goes on into the text. -/
def Breaks (t : List Char) : Prop :=
  ∀ c ∈ t.head?, isInk c = false

/-- No word, number, register or run of spaces goes on into the text. -/
def Ends (t : List Char) : Prop :=
  ∀ c ∈ t.head?, isLive c = false

/-- The text is empty or starts with a newline. -/
def AtLineEnd (t : List Char) : Prop :=
  ∀ c ∈ t.head?, c = '\n'

/-- The text is empty or starts with a newline or a comment. -/
def AtCodeEnd (t : List Char) : Prop :=
  ∀ c ∈ t.head?, c = '\n' ∨ c = commentChar

theorem AtLineEnd.codeEnd {t : List Char} (h : AtLineEnd t) : AtCodeEnd t :=
  fun c hc => .inl (h c hc)

theorem AtCodeEnd.ends {t : List Char} (h : AtCodeEnd t) : Ends t := by
  intro c hc
  rcases h c hc with rfl | rfl <;> decide

theorem AtLineEnd.ends {t : List Char} (h : AtLineEnd t) : Ends t :=
  h.codeEnd.ends

theorem Ends.cons {c : Char} (h : isLive c = false) (t : List Char) : Ends (c :: t) := by
  intro d hd
  cases hd
  exact h

theorem atLineEnd_nil : AtLineEnd [] := by
  intro c hc
  cases hc

theorem atLineEnd_newline (t : List Char) : AtLineEnd ('\n' :: t) := by
  intro c hc
  cases hc
  rfl

/-! ## Ink -/

theorem isInk_of_wordChar {c : Char} (h : isWordChar c = true) : isInk c = true := by
  simp [isInk, h]

theorem isWordChar_of_nameChar {c : Char} (h : isNameChar c = true) : isWordChar c = true := by
  simp [isWordChar, h]

theorem isInk_of_nameChar {c : Char} (h : isNameChar c = true) : isInk c = true :=
  isInk_of_wordChar (isWordChar_of_nameChar h)

theorem isWordChar_of_wordStart {c : Char} (h : isWordStart c = true) : isWordChar c = true := by
  simp only [isWordStart, Bool.or_eq_true, decide_eq_true_eq] at h
  rcases h with h | h <;> simp [isWordChar, isNameChar, Char.isAlphanum, h]

theorem isInk_of_wordStart {c : Char} (h : isWordStart c = true) : isInk c = true :=
  isInk_of_wordChar (isWordChar_of_wordStart h)

theorem isInk_of_sign {c : Char} (h : Numeral.isSign c = true) : isInk c = true := by
  simp [isInk, h]

theorem isInk_of_digit {c : Char} (h : c.isDigit = true) : isInk c = true :=
  isInk_of_nameChar (by simp [isNameChar, Char.isAlphanum, h])

/-- Characters that a test tells apart. -/
theorem ne_of_test {p : Char → Bool} {c d : Char} (hc : p c = true) (hd : p d = false) : c ≠ d := by
  intro h
  rw [h, hd] at hc
  cases hc

/-- What can be checked for each of the listed characters holds for all of them. -/
theorem forall_mem_of_all {P : Char → Prop} [DecidablePred P] {l : List Char}
    (h : (l.all fun c => decide (P c)) = true) : ∀ c ∈ l, P c :=
  fun c hc => of_decide_eq_true (List.all_eq_true.1 h c hc)

theorem Breaks.head_ne {c d : Char} {t : List Char} (ht : Breaks (c :: t)) (hd : isInk d = true) :
    c ≠ d :=
  (ne_of_test hd (ht c rfl)).symm

/-- What only ink has, the character after a break has not. -/
theorem Breaks.not_head {p : Char → Bool} (hp : ∀ c, p c = true → isInk c = true) {c : Char}
    {t : List Char} (ht : Breaks (c :: t)) : p c = false := by
  cases h : p c with
  | false => rfl
  | true =>
    have hink := hp c h
    rw [ht c rfl] at hink
    cases hink

theorem Ends.breaks {t : List Char} (h : Ends t) : Breaks t := by
  intro c hc
  have hlive := h c hc
  simp only [isLive, Bool.or_eq_false_iff] at hlive
  simp [isInk, hlive]

theorem takeWhile_append_of_head {p : Char → Bool} {u : List Char}
    (h : ∀ c ∈ u.head?, p c = false) (l : List Char) : (l ++ u).takeWhile p = l.takeWhile p := by
  induction l with
  | nil =>
    cases u with
    | nil => rfl
    | cons c u => simp [h c rfl]
  | cons c l ih => rw [List.cons_append, List.takeWhile_cons, List.takeWhile_cons, ih]

section
variable {t : List Char} (ht : Breaks t)
include ht

theorem takeWhile_append_breaks {p : Char → Bool} (hp : ∀ c, p c = true → isInk c = true)
    (l : List Char) : (l ++ t).takeWhile p = l.takeWhile p := by
  refine takeWhile_append_of_head (fun c hc => ?_) l
  cases h : p c with
  | false => rfl
  | true => exact (hp c h).symm.trans (ht c hc)

theorem dropWhile_append_breaks {p : Char → Bool} (hp : ∀ c, p c = true → isInk c = true)
    (l : List Char) : (l ++ t).dropWhile p = l.dropWhile p ++ t := by
  induction l with
  | nil =>
    cases t with
    | nil => rfl
    | cons c t =>
      simp [ht.not_head hp]
  | cons c l ih =>
    rw [List.cons_append, List.dropWhile_cons, List.dropWhile_cons]
    split
    · exact ih
    · rfl

theorem startsWord_append (l : List Char) : startsWord (l ++ t) = startsWord l := by
  cases l with
  | nil =>
    cases t with
    | nil => rfl
    | cons c t => exact ht.not_head fun _ => isInk_of_wordChar
  | cons c l => rfl

theorem sign_append (l : List Char) : sign (l ++ t) = sign l := by
  cases l with
  | nil =>
    cases t with
    | nil => rfl
    | cons c t => simp [sign, ht.not_head fun _ => isInk_of_sign]
  | cons c l => rfl

end

/-! ## Lengths -/

theorem length_sign_le (text : List Char) : (sign text).length ≤ text.length := by
  cases text with
  | nil => exact Nat.le_refl 0
  | cons c rest =>
    rw [sign]
    split <;> simp

theorem length_takeWhile_le (p : Char → Bool) (text : List Char) :
    (text.takeWhile p).length ≤ text.length :=
  (List.takeWhile_prefix p).length_le

/-- A sign and the run of characters after it lie within the text. -/
theorem length_sign_takeWhile_le (p : Char → Bool) (text : List Char) :
    (sign text).length + ((text.drop (sign text).length).takeWhile p).length ≤ text.length := by
  have h1 := length_sign_le text
  have h2 := length_takeWhile_le p (text.drop (sign text).length)
  rw [List.length_drop] at h2
  omega

/-- A sign and the run of characters after it are the front of the text. -/
theorem sign_append_front (p : Char → Bool) (text : List Char) :
    sign text ++ (text.drop (sign text).length).takeWhile p <+: text := by
  cases text with
  | nil => exact List.prefix_refl _
  | cons c rest =>
    rw [sign]
    split
    · exact (List.prefix_cons_inj c).2 (List.takeWhile_prefix p)
    · exact List.takeWhile_prefix p

/-! ## Words -/

/-- Is the text an identifier as a whole? -/
def IsIdentifier : List Char → Prop
  | [] => False
  | c :: rest => isWordStart c = true ∧ ∀ x ∈ rest, isWordChar x = true

instance : DecidablePred IsIdentifier
  | [] => inferInstanceAs (Decidable False)
  | c :: rest => decidable_of_iff (isWordStart c = true ∧ rest.all isWordChar = true) (by
      rw [IsIdentifier, List.all_eq_true])

theorem IsIdentifier.ne_nil {w : List Char} (h : IsIdentifier w) : w ≠ [] := by
  intro hnil
  rw [hnil] at h
  exact h

theorem IsIdentifier.all_wordChar {w : List Char} (h : IsIdentifier w) :
    ∀ x ∈ w, isWordChar x = true := by
  cases w with
  | nil => exact h.elim
  | cons c rest =>
    intro x hx
    rcases List.mem_cons.1 hx with rfl | hx
    · exact isWordChar_of_wordStart h.1
    · exact h.2 x hx

theorem identifier?_spec {text name : List Char} (h : identifier? text = some name) :
    IsIdentifier name ∧ name.length ≤ text.length := by
  cases text with
  | nil => cases h
  | cons c rest =>
    rw [identifier?] at h
    split at h
    · rename_i hc
      cases h
      have hlen := length_takeWhile_le isWordChar rest
      refine ⟨⟨hc, fun x hx => ?_⟩, by simpa using hlen⟩
      exact List.all_eq_true.1 (List.all_takeWhile (p := isWordChar) (l := rest)) x hx
    · cases h

theorem identifier?_append {t : List Char} (ht : Breaks t) (l : List Char) :
    identifier? (l ++ t) = identifier? l := by
  cases l with
  | nil =>
    cases t with
    | nil => rfl
    | cons c t => simp [identifier?, ht.not_head fun _ => isInk_of_wordStart]
  | cons c l =>
    rw [List.cons_append, identifier?, identifier?,
      takeWhile_append_breaks ht fun _ => isInk_of_wordChar]

theorem directiveName?_spec {text name : List Char} (h : directiveName? text = some name) :
    name ≠ [] ∧ name.length ≤ text.length := by
  rw [directiveName?.eq_def] at h
  split at h
  · rename_i c rest
    split at h
    · cases h
      have hlen := length_takeWhile_le isNameChar rest
      exact ⟨by simp, by simpa using hlen⟩
    · cases h
  · cases h

theorem directiveName?_append {t : List Char} (ht : Breaks t) (l : List Char) :
    directiveName? (l ++ t) = directiveName? l := by
  match l with
  | [] =>
    cases t with
    | nil => rfl
    | cons c t =>
      have hc : c ≠ '.' := ht.head_ne (by decide)
      simp [directiveName?, hc]
  | [c] =>
    cases t with
    | nil => rfl
    | cons d t =>
      have hd := ht.not_head fun _ => isInk_of_wordStart
      by_cases hc : c = '.'
      · simp [directiveName?, hc, hd]
      · simp [directiveName?, hc]
  | c :: d :: rest =>
    by_cases hc : c = '.'
    · subst hc
      rw [List.cons_append, List.cons_append, directiveName?, directiveName?,
        takeWhile_append_breaks ht fun _ => isInk_of_nameChar,
        dropWhile_append_breaks ht fun _ => isInk_of_nameChar, startsWord_append ht]
    · simp [directiveName?, hc]

theorem spaces_append {t : List Char} (ht : Ends t) (l : List Char) :
    spaces (l ++ t) = spaces l := by
  refine takeWhile_append_of_head (fun c hc => ?_) l
  have hlive := ht c hc
  simp only [isLive, Bool.or_eq_false_iff] at hlive
  exact hlive.1.2

/-- So many spaces. -/
def gap (n : Nat) : List Char :=
  List.replicate n ' '

@[simp]
theorem length_gap (n : Nat) : (gap n).length = n :=
  List.length_replicate

theorem drop_gap (n : Nat) (t : List Char) : (gap n ++ t).drop n = t :=
  List.drop_left' (length_gap n)

/-- The spaces before something else are found. -/
theorem spaces_gap {n : Nat} {t : List Char} (h : ∀ c ∈ t.head?, c ≠ ' ') :
    spaces (gap n ++ t) = gap n := by
  rw [spaces, takeWhile_append_of_head (fun c hc => decide_eq_false (h c hc)), gap,
    List.takeWhile_replicate, if_pos (by decide)]

theorem length_spaces_le (text : List Char) : (spaces text).length ≤ text.length :=
  length_takeWhile_le _ text

theorem label?_spec {text name : List Char} {n : Nat} (h : label? text = some (name, n)) :
    IsIdentifier name ∧ 0 < n ∧ n ≤ text.length := by
  unfold label? at h
  split at h
  · cases h
  · rename_i w hw
    simp only at h
    split at h
    · rename_i rest hr
      cases h
      have hlen := congrArg List.length hr
      simp only [List.length_drop, List.length_cons] at hlen
      exact ⟨(identifier?_spec hw).1, by omega, by omega⟩
    · cases h

theorem label?_append {t : List Char} (ht : Ends t) (hcolon : ':' ∉ t.head?) (l : List Char) :
    label? (l ++ t) = label? l := by
  rw [label?, label?, identifier?_append ht.breaks]
  cases hw : identifier? l with
  | none => rfl
  | some name =>
    have hname := (identifier?_spec hw).2
    have hgap := length_spaces_le (l.drop name.length)
    rw [List.length_drop] at hgap
    simp only
    rw [List.drop_append_of_le_length hname, spaces_append ht,
      List.drop_append_of_le_length (by omega)]
    cases l.drop (name.length + (spaces (l.drop name.length)).length) with
    | cons c rest => by_cases hc : c = ':' <;> simp [hc]
    | nil =>
      cases t with
      | nil => rfl
      | cons c t =>
        have hc : c ≠ ':' := by simpa using hcolon
        simp [hc]

theorem registerName?_spec {text name : List Char} (h : registerName? text = some name) :
    name.length + 1 ≤ text.length := by
  rw [registerName?.eq_def] at h
  split at h
  · rename_i rest
    simp only at h
    split at h
    · cases h
    · cases h
      have := length_sign_takeWhile_le isNameChar rest
      simp only [List.length_append, List.length_cons]
      omega
  · cases h

/-- A register is the front of the text. -/
theorem registerName?_front {text name : List Char} (h : registerName? text = some name) :
    '$' :: name <+: text := by
  rw [registerName?.eq_def] at h
  split at h
  · rename_i rest
    simp only at h
    split at h
    · cases h
    · cases h
      exact (List.prefix_cons_inj '$').2 (sign_append_front isNameChar rest)
  · cases h

theorem registerName?_append {t : List Char} (ht : Breaks t) (l : List Char) :
    registerName? (l ++ t) = registerName? l := by
  cases l with
  | nil =>
    cases t with
    | nil => rfl
    | cons c t =>
      have hc : c ≠ '$' := ht.head_ne (by decide)
      simp [registerName?, hc]
  | cons c rest =>
    by_cases hc : c = '$'
    · subst hc
      rw [List.cons_append, registerName?, registerName?, sign_append ht,
        List.drop_append_of_le_length (length_sign_le rest),
        takeWhile_append_breaks ht fun _ => isInk_of_nameChar]
    · simp [registerName?, hc]

/-! ## Numbers -/

theorem integer?_spec {text literal : List Char} (h : integer? text = some literal) :
    literal ≠ [] ∧ literal.length ≤ text.length := by
  simp only [integer?] at h
  split at h
  · rename_i hw
    cases h
    have := length_sign_takeWhile_le isWordChar text
    refine ⟨fun hnil => ?_, by simpa using this⟩
    rw [(List.append_eq_nil_iff.1 hnil).2] at hw
    cases hw
  · cases h

theorem integer?_append {t : List Char} (ht : Breaks t) (l : List Char) :
    integer? (l ++ t) = integer? l := by
  simp only [integer?]
  rw [sign_append ht, List.drop_append_of_le_length (length_sign_le l),
    takeWhile_append_breaks ht fun _ => isInk_of_wordChar]

theorem symbolOffset?_spec {text word : List Char} {mark : Char} {n : Nat}
    (h : symbolOffset? text = some ((mark, word), n)) : n ≤ text.length := by
  simp only [symbolOffset?] at h
  split at h
  · rename_i c rest hr
    split at h
    · cases h
      have hlen := congrArg List.length hr
      have h1 := length_spaces_le rest
      have h2 := length_takeWhile_le isWordChar (rest.drop (spaces rest).length)
      simp only [List.length_drop, List.length_cons] at hlen h2
      omega
    · cases h
  · cases h

theorem symbolOffset?_append {t : List Char} (ht : Ends t) (l : List Char) :
    symbolOffset? (l ++ t) = symbolOffset? l := by
  simp only [symbolOffset?]
  rw [spaces_append ht, List.drop_append_of_le_length (length_spaces_le l)]
  cases l.drop (spaces l).length with
  | nil =>
    cases t with
    | nil => rfl
    | cons c t => simp [ht.breaks.not_head fun _ => isInk_of_sign]
  | cons c rest =>
    simp only [List.cons_append]
    rw [spaces_append ht, List.drop_append_of_le_length (length_spaces_le rest),
      takeWhile_append_breaks ht.breaks fun _ => isInk_of_wordChar]

theorem fraction?_spec {text digits : List Char} (h : fraction? text = some digits) :
    digits.length + 1 ≤ text.length := by
  rw [fraction?.eq_def] at h
  split at h
  · rename_i rest
    simp only at h
    split at h
    · cases h
    · cases h
      have := length_takeWhile_le Char.isDigit rest
      simpa using this
  · cases h

theorem fraction?_append {t : List Char} (ht : Breaks t) (l : List Char) :
    fraction? (l ++ t) = fraction? l := by
  cases l with
  | nil =>
    cases t with
    | nil => rfl
    | cons c t =>
      have hc : c ≠ '.' := ht.head_ne (by decide)
      simp [fraction?, hc]
  | cons c rest =>
    by_cases hc : c = '.'
    · subst hc
      rw [List.cons_append, fraction?, fraction?,
        takeWhile_append_breaks ht fun _ => isInk_of_digit]
    · simp [fraction?, hc]

theorem exponent?_spec {text : List Char} {value : Int} {n : Nat}
    (h : exponent? text = some (value, n)) : n ≤ text.length := by
  cases text with
  | nil => cases h
  | cons letter rest =>
    simp only [exponent?] at h
    split at h
    · cases h
      have := length_sign_takeWhile_le Char.isDigit rest
      simp only [List.length_cons]
      omega
    · cases h

theorem exponent?_append {t : List Char} (ht : Breaks t) (l : List Char) :
    exponent? (l ++ t) = exponent? l := by
  cases l with
  | nil =>
    cases t with
    | nil => rfl
    | cons c t =>
      have he : c ≠ 'e' := ht.head_ne (by decide)
      have hE : c ≠ 'E' := ht.head_ne (by decide)
      simp [exponent?, he, hE]
  | cons c rest =>
    simp only [List.cons_append, exponent?]
    rw [sign_append ht, List.drop_append_of_le_length (length_sign_le rest),
      takeWhile_append_breaks ht fun _ => isInk_of_digit]

/-- The length of a fraction with its point, none for a missing one. -/
def fractionLength (text : List Char) : Nat :=
  match fraction? text with
  | some digits => digits.length + 1
  | none => 0

/-- The length of an exponent, none for a missing one. -/
def exponentLength (text : List Char) : Nat :=
  match exponent? text with
  | some (_, n) => n
  | none => 0

theorem fractionLength_le (text : List Char) : fractionLength text ≤ text.length := by
  unfold fractionLength
  split
  · rename_i h
    exact fraction?_spec h
  · exact Nat.zero_le _

theorem exponentLength_le (text : List Char) : exponentLength text ≤ text.length := by
  unfold exponentLength
  split
  · rename_i h
    exact exponent?_spec h
  · exact Nat.zero_le _

/-- The digits of a number before its point or exponent. -/
def wholeDigits (text : List Char) : List Char :=
  (text.drop (sign text).length).takeWhile Char.isDigit

/-- What follows the sign and the whole digits of a number. -/
def afterWhole (text : List Char) : List Char :=
  text.drop ((sign text).length + (wholeDigits text).length)

/-- What follows the fraction of a number, or its whole digits if it has none. -/
def afterFraction (text : List Char) : List Char :=
  (afterWhole text).drop (fractionLength (afterWhole text))

/-- The length of a number, whether or not it is one with a fraction or an exponent. -/
def decimalLength (text : List Char) : Nat :=
  (sign text).length + (wholeDigits text).length + fractionLength (afterWhole text) +
    exponentLength (afterFraction text)

theorem decimal?_eq (text : List Char) :
    decimal? text =
      if wholeDigits text ≠ [] ∧
          ((fraction? (afterWhole text)).isSome ∨ (exponent? (afterFraction text)).isSome) ∧
          ¬ startsWord (text.drop (decimalLength text)) then
        some ({ negative := sign text = ['-']
                coefficient := decimalValue
                  (wholeDigits text ++ (fraction? (afterWhole text)).getD [])
                exponent := ((exponent? (afterFraction text)).map (·.1)).getD 0 -
                  ((fraction? (afterWhole text)).getD []).length },
          decimalLength text)
      else none := rfl

theorem decimalLength_le (text : List Char) : decimalLength text ≤ text.length := by
  have h1 := length_sign_takeWhile_le Char.isDigit text
  have h2 := fractionLength_le (afterWhole text)
  have h3 := exponentLength_le (afterFraction text)
  rw [← wholeDigits] at h1
  simp only [afterFraction, afterWhole, List.length_drop] at h2 h3
  simp only [decimalLength, afterFraction, afterWhole]
  omega

theorem decimal?_spec {text : List Char} {d : Binary64.Decimal} {n : Nat}
    (h : decimal? text = some (d, n)) : 0 < n ∧ n ≤ text.length := by
  rw [decimal?_eq] at h
  split at h
  · rename_i hc
    cases h
    have hwhole := List.length_pos_iff.2 hc.1
    refine ⟨?_, decimalLength_le text⟩
    unfold decimalLength
    omega
  · cases h

section
variable {t : List Char} (ht : Breaks t)
include ht

theorem wholeDigits_append (l : List Char) : wholeDigits (l ++ t) = wholeDigits l := by
  rw [wholeDigits, wholeDigits, sign_append ht, List.drop_append_of_le_length (length_sign_le l),
    takeWhile_append_breaks ht fun _ => isInk_of_digit]

theorem afterWhole_append (l : List Char) : afterWhole (l ++ t) = afterWhole l ++ t := by
  have h := length_sign_takeWhile_le Char.isDigit l
  rw [← wholeDigits] at h
  rw [afterWhole, sign_append ht, wholeDigits_append ht, List.drop_append_of_le_length h,
    afterWhole]

theorem fractionLength_append (l : List Char) : fractionLength (l ++ t) = fractionLength l := by
  rw [fractionLength, fraction?_append ht, fractionLength]

theorem exponentLength_append (l : List Char) : exponentLength (l ++ t) = exponentLength l := by
  rw [exponentLength, exponent?_append ht, exponentLength]

theorem afterFraction_append (l : List Char) : afterFraction (l ++ t) = afterFraction l ++ t := by
  rw [afterFraction, afterWhole_append ht, fractionLength_append ht,
    List.drop_append_of_le_length (fractionLength_le _), afterFraction]

theorem decimalLength_append (l : List Char) : decimalLength (l ++ t) = decimalLength l := by
  rw [decimalLength, sign_append ht, wholeDigits_append ht, afterWhole_append ht,
    fractionLength_append ht, afterFraction_append ht, exponentLength_append ht, decimalLength]

theorem decimal?_append (l : List Char) : decimal? (l ++ t) = decimal? l := by
  rw [decimal?_eq, decimal?_eq, sign_append ht, wholeDigits_append ht, afterWhole_append ht,
    fraction?_append ht, afterFraction_append ht, exponent?_append ht, decimalLength_append ht,
    List.drop_append_of_le_length (decimalLength_le l), startsWord_append ht]

end

/-! ## Quoted literals -/

/-- The body of a character literal: an escape, or a character that needs none. -/
def IsCharacterBody (body : List Char) : Prop :=
  (∃ letter, letter ≠ '\n' ∧ body = ['\\', letter]) ∨
    ∃ c, c ≠ '\\' ∧ c ≠ '\'' ∧ c ≠ '\n' ∧ body = [c]

/-- The body of a string literal: escapes, and characters that need none. -/
inductive IsStringBody : List Char → Prop
  | nil : IsStringBody []
  | escape {letter : Char} {body : List Char} :
      letter ≠ '\n' → IsStringBody body → IsStringBody ('\\' :: letter :: body)
  | plain {c : Char} {body : List Char} :
      c ≠ '"' → c ≠ '\\' → c ≠ '\n' → IsStringBody body → IsStringBody (c :: body)

theorem IsCharacterBody.no_newline {body : List Char} (h : IsCharacterBody body) :
    '\n' ∉ body := by
  rcases h with ⟨letter, hl, rfl⟩ | ⟨c, -, -, hn, rfl⟩
  · simp [hl.symm]
  · simp [hn.symm]

theorem IsStringBody.no_newline {body : List Char} (h : IsStringBody body) : '\n' ∉ body := by
  induction h with
  | nil => simp
  | escape hl _ ih => simp [hl.symm, ih]
  | plain _ _ hn _ ih => simp [hn.symm, ih]

/-- **Character literals**: a body between two quotation marks. -/
theorem character?_eq_some_iff {text body : List Char} :
    character? text = some body ↔ IsCharacterBody body ∧ '\'' :: body ++ ['\''] <+: text := by
  constructor
  · intro h
    rw [character?.eq_def] at h
    split at h
    · rename_i letter rest
      split at h
      · cases h
      · rename_i hl
        cases h
        exact ⟨.inl ⟨letter, hl, rfl⟩, rest, rfl⟩
    · rename_i c rest _
      split at h
      · cases h
      · rename_i hc
        cases h
        simp only [not_or] at hc
        exact ⟨.inr ⟨c, hc.1, hc.2.1, hc.2.2, rfl⟩, rest, rfl⟩
    · cases h
  · rintro ⟨⟨letter, hl, rfl⟩ | ⟨c, hb, hq, hn, rfl⟩, rest, rfl⟩
    · simp [character?, hl]
    · simp [character?, hb, hq, hn]

theorem stringBody_cons_plain {c : Char} (hq : c ≠ '"') (hb : c ≠ '\\') (hn : c ≠ '\n')
    (rest : List Char) : stringBody (c :: rest) = (stringBody rest).map (c :: ·) := by
  rw [stringBody.eq_def]
  split
  · rename_i h; cases h
  · rename_i h; cases h; exact absurd rfl hq
  · rename_i h; cases h; exact absurd rfl hb
  · rename_i h
    cases h
    simp [hb, hn]

theorem stringBody_eq_some_iff {text body : List Char} :
    stringBody text = some body ↔ IsStringBody body ∧ body ++ ['"'] <+: text := by
  constructor
  · intro h
    fun_induction stringBody text generalizing body with
    | case1 => cases h
    | case2 rest => cases h; exact ⟨.nil, rest, rfl⟩
    | case3 => cases h
    | case4 letter rest hl ih =>
      obtain ⟨b, hb, rfl⟩ := Option.map_eq_some_iff.1 h
      obtain ⟨hbody, tail, htail⟩ := ih hb
      exact ⟨.escape hl hbody, tail, by simp [← htail]⟩
    | case5 => cases h
    | case6 c rest hq _ hc ih =>
      obtain ⟨b, hb, rfl⟩ := Option.map_eq_some_iff.1 h
      obtain ⟨hbody, tail, htail⟩ := ih hb
      simp only [not_or] at hc
      exact ⟨.plain (fun he => hq he) hc.1 hc.2 hbody, tail, by simp [← htail]⟩
  · rintro ⟨hbody, tail, rfl⟩
    induction hbody with
    | nil => simp [stringBody]
    | escape hl _ ih => simpa [stringBody, hl] using ih
    | plain hq hb hn _ ih =>
      rw [List.cons_append, List.cons_append, stringBody_cons_plain hq hb hn, ih]
      rfl

/-- **String literals**: a body between two quotation marks. -/
theorem string?_eq_some_iff {text body : List Char} :
    string? text = some body ↔ IsStringBody body ∧ '"' :: body ++ ['"'] <+: text := by
  rw [string?.eq_def]
  split
  · rename_i rest
    rw [stringBody_eq_some_iff, List.cons_append, List.prefix_cons_inj]
  · rename_i h
    simp only [reduceCtorEq, false_iff, not_and]
    rintro - ⟨tail, rfl⟩
    exact h _ rfl

/-- A piece of text that does not hold the first character of a tail does not reach into it. -/
theorem prefix_append_iff {word t : List Char} (h : ∀ c ∈ t.head?, c ∉ word) (l : List Char) :
    word <+: l ++ t ↔ word <+: l := by
  induction word generalizing l with
  | nil => simp
  | cons c word ih =>
    have hword : ∀ x ∈ t.head?, x ∉ word := fun x hx hmem =>
      h x hx (List.mem_cons_of_mem c hmem)
    cases l with
    | nil =>
      cases t with
      | nil => simp
      | cons x t =>
        have hc : c ≠ x := fun he => h x rfl (by simp [he])
        simp [hc]
    | cons d l => rw [List.cons_append, List.cons_prefix_cons, List.cons_prefix_cons, ih hword]

section
variable {t : List Char} (ht : AtLineEnd t)
include ht

theorem character?_append (l : List Char) : character? (l ++ t) = character? l := by
  refine Option.ext fun body => ?_
  rw [character?_eq_some_iff, character?_eq_some_iff]
  refine and_congr_right fun hbody => prefix_append_iff (fun c hc => ?_) l
  rw [ht c hc]
  simp [hbody.no_newline]

theorem string?_append (l : List Char) : string? (l ++ t) = string? l := by
  refine Option.ext fun body => ?_
  rw [string?_eq_some_iff, string?_eq_some_iff]
  refine and_congr_right fun hbody => prefix_append_iff (fun c hc => ?_) l
  rw [ht c hc]
  simp [hbody.no_newline]

end

end MipsSource.Lexeme
