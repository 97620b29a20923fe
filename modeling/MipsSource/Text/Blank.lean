/-!
# Blanks

The characters that count as white space around a token, after Unicode: the separators, and the
controls from tab to carriage return, from U+001C to U+001F, and U+0085.

* `trim_of_no_blank`: a text without blanks at its ends is kept.
* `exists_trimWhile`, `trimWhile_append`: what is kept is what lies between the dropped ends.
-/

set_option autoImplicit false

namespace MipsSource.Text

/-- The blank code points. -/
def blankCodes : List Nat :=
  [0x9, 0xa, 0xb, 0xc, 0xd, 0x1c, 0x1d, 0x1e, 0x1f, 0x20, 0x85, 0xa0, 0x1680, 0x2000, 0x2001,
   0x2002, 0x2003, 0x2004, 0x2005, 0x2006, 0x2007, 0x2008, 0x2009, 0x200a, 0x2028, 0x2029, 0x202f,
   0x205f, 0x3000]

/-- Is the character white space? -/
def isBlank (c : Char) : Bool :=
  blankCodes.contains c.toNat

/-- Drops the longest suffix of characters that satisfy `p`. -/
def dropEndWhile (p : Char → Bool) (text : List Char) : List Char :=
  (text.reverse.dropWhile p).reverse

/-- Drops the characters that satisfy `p` from both ends. -/
def trimWhile (p : Char → Bool) (text : List Char) : List Char :=
  dropEndWhile p (text.dropWhile p)

/-- Drops the blanks from both ends. -/
def trim (text : List Char) : List Char :=
  trimWhile isBlank text

theorem dropWhile_of_all_not {p : Char → Bool} {text : List Char} (h : ∀ c ∈ text, p c = false) :
    text.dropWhile p = text := by
  cases text with
  | nil => rfl
  | cons c r => simp [h c (by simp)]

theorem trimWhile_of_all_not {p : Char → Bool} {text : List Char} (h : ∀ c ∈ text, p c = false) :
    trimWhile p text = text := by
  have hr : ∀ c ∈ text.reverse, p c = false := fun c hc => h c (List.mem_reverse.1 hc)
  rw [trimWhile, dropWhile_of_all_not h, dropEndWhile, dropWhile_of_all_not hr,
    List.reverse_reverse]

theorem trim_of_no_blank {text : List Char} (h : ∀ c ∈ text, isBlank c = false) :
    trim text = text :=
  trimWhile_of_all_not h

/-! ## What is dropped and what is kept -/

variable {p : Char → Bool}

theorem dropWhile_of_head {text : List Char} (h : ∀ c ∈ text.head?, p c = false) :
    text.dropWhile p = text := by
  cases text with
  | nil => rfl
  | cons c rest => rw [List.dropWhile_cons, if_neg (by simp [h c rfl])]

theorem head_dropWhile (text : List Char) : ∀ c ∈ (text.dropWhile p).head?, p c = false := by
  intro c hc
  have h := List.head?_dropWhile_not p text
  rw [hc] at h
  exact h

/-- A text is the characters that are dropped at both ends, and what is between them. -/
theorem exists_trimWhile (p : Char → Bool) (text : List Char) : ∃ before after,
    text = before ++ (trimWhile p text ++ after) ∧ (∀ c ∈ before, p c = true) ∧
      (∀ c ∈ after, p c = true) ∧ (∀ c ∈ (trimWhile p text).head?, p c = false) ∧
      ∀ c ∈ (trimWhile p text).getLast?, p c = false := by
  have hfront : text.takeWhile p ++ text.dropWhile p = text := List.takeWhile_append_dropWhile
  have hback : trimWhile p text ++ ((text.dropWhile p).reverse.takeWhile p).reverse =
      text.dropWhile p := by
    rw [trimWhile, dropEndWhile, ← List.reverse_append, List.takeWhile_append_dropWhile,
      List.reverse_reverse]
  refine ⟨text.takeWhile p, ((text.dropWhile p).reverse.takeWhile p).reverse, ?_, ?_, ?_, ?_, ?_⟩
  · rw [hback, hfront]
  · exact List.all_eq_true.1 List.all_takeWhile
  · exact fun c hc => List.all_eq_true.1 List.all_takeWhile c (List.mem_reverse.1 hc)
  · -- the first character left is the first one after the blanks in front
    intro c hc
    apply head_dropWhile text c
    rw [← hback, List.head?_append, hc]
    rfl
  · rw [trimWhile, dropEndWhile, List.getLast?_reverse]
    exact head_dropWhile _

theorem trimWhile_append {before inner after : List Char} (hb : ∀ c ∈ before, p c = true)
    (ha : ∀ c ∈ after, p c = true) (hhead : ∀ c ∈ inner.head?, p c = false)
    (hlast : ∀ c ∈ inner.getLast?, p c = false) :
    trimWhile p (before ++ (inner ++ after)) = inner := by
  rw [trimWhile, List.dropWhile_append_of_pos hb]
  cases inner with
  | nil =>
    rw [List.nil_append, ← List.append_nil after, List.dropWhile_append_of_pos ha]
    rfl
  | cons c rest =>
    have hreverse : ∀ x ∈ (c :: rest).reverse.head?, p x = false := by
      rwa [List.head?_reverse]
    rw [List.cons_append, dropWhile_of_head (by simpa using hhead), ← List.cons_append,
      dropEndWhile, List.reverse_append,
      List.dropWhile_append_of_pos (fun x hx => ha x (List.mem_reverse.1 hx)),
      dropWhile_of_head hreverse, List.reverse_reverse]

end MipsSource.Text
