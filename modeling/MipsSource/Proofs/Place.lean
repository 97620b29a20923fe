import MipsSource.Cursor

/-!
# True places

`Text.lineAt text k` and `Text.colAt text k` are the line and the column of an offset, counted in
the text itself; `Cursor.atOffset text k` is the cursor that carries them. Cursors compute line and
column step by step; these agree with the text wherever a cursor gets by moving on:

* `Cursor.start_advance`: moving on from the start reaches the true place.
* `Cursor.atOffset_advance`: moving on from a true place reaches a true place.
* `Cursor.advance_offset`, `Cursor.advance_past`: what moving does to the other fields.
-/

set_option autoImplicit false

namespace MipsSource

namespace Text

/-- The line of an offset: newlines before it, counted from one. -/
def lineAt (text : List Char) (k : Nat) : Int :=
  1 + ((text.take k).count '\n' : Nat)

/-- The column of an offset: characters since the last newline before it, counted from one. -/
def colAt (text : List Char) (k : Nat) : Int :=
  1 + (((text.take k).reverse.takeWhile (· ≠ '\n')).length : Nat)

theorem take_succ_of_drop {text rest : List Char} {k : Nat} {c : Char}
    (h : text.drop k = c :: rest) : text.take (k + 1) = text.take k ++ [c] := by
  have hk : text[k]? = some c := by
    have := congrArg (·[0]?) h
    simpa [List.getElem?_drop] using this
  rw [List.take_add_one, hk]
  rfl

theorem lineAt_succ {text rest : List Char} {k : Nat} {c : Char} (h : text.drop k = c :: rest) :
    lineAt text (k + 1) = if c = '\n' then lineAt text k + 1 else lineAt text k := by
  rw [lineAt, take_succ_of_drop h, List.count_append, lineAt]
  split
  · rename_i hc
    subst hc
    simp
    omega
  · rename_i hc
    simp [hc]

theorem colAt_succ {text rest : List Char} {k : Nat} {c : Char} (h : text.drop k = c :: rest) :
    colAt text (k + 1) = if c = '\n' then 1 else colAt text k + 1 := by
  rw [colAt, take_succ_of_drop h, List.reverse_append, List.reverse_singleton,
    List.singleton_append, colAt]
  split
  · rename_i hc
    simp [hc]
  · rename_i hc
    simp [hc]
    omega

theorem lineAt_mono (text : List Char) {k m : Nat} (h : k ≤ m) : lineAt text k ≤ lineAt text m := by
  have hs : (text.take k).Sublist (text.take m) := (List.take_prefix_take_left h).sublist
  have := hs.count_le '\n'
  simp only [lineAt]
  omega

end Text

namespace Cursor

/-- The cursor at an offset of a text, with its true line and column. -/
def atOffset (text : List Char) (k : Nat) : Cursor :=
  ofText text k (Text.lineAt text k) (Text.colAt text k)

@[simp]
theorem atOffset_rest (text : List Char) (k : Nat) : (atOffset text k).rest = text.drop k := rfl

@[simp]
theorem atOffset_offset (text : List Char) (k : Nat) : (atOffset text k).offset = k := rfl

@[simp]
theorem atOffset_line (text : List Char) (k : Nat) :
    (atOffset text k).line = Text.lineAt text k := rfl

@[simp]
theorem atOffset_col (text : List Char) (k : Nat) : (atOffset text k).col = Text.colAt text k := rfl

theorem atOffset_past {text : List Char} {k : Nat} (h : k ≤ text.length) :
    (atOffset text k).past = 0 := Nat.sub_eq_zero_of_le h

@[simp]
theorem start_past (text : List Char) : (start text).past = 0 := rfl

theorem start_eq_atOffset (text : List Char) : start text = atOffset text 0 := by
  simp [start, atOffset, ofText, Text.lineAt, Text.colAt]

/-- A text goes on with a word if it starts with it. -/
theorem startsWith_iff {c : Cursor} (h : c.past = 0) (word : List Char) :
    c.startsWith word = true ↔ word <+: c.rest := by
  rw [startsWith, h]
  simp only [decide_true, Bool.true_and, List.isPrefixOf_iff_prefix]

/-! ## Moving on -/

theorem advance_of_past {c : Cursor} (h : c.past = 0) (n : Nat) : c.advance n = walk n c := by
  unfold advance
  split
  · rename_i hn
    rw [hn, walk]
  · rw [backToEnd_of_past h]

@[simp]
theorem advance_past {c : Cursor} (h : c.past = 0) (n : Nat) : (c.advance n).past = 0 := by
  rw [advance_of_past h, walk_past, h]

/-- Moving on over characters that are there moves the offset by as many. -/
theorem advance_offset {c : Cursor} (h : c.past = 0) {n : Nat} (hn : n ≤ c.rest.length) :
    (c.advance n).offset = c.offset + n := by
  have hsum := advance_offset_add h n
  rw [advance_rest, List.length_drop] at hsum
  omega

theorem advance_succ {c : Cursor} (h : c.past = 0) {ch : Char} {rest : List Char}
    (hr : c.rest = ch :: rest) (n : Nat) : c.advance (n + 1) = (c.step ch rest).advance n := by
  rw [advance_of_past h, advance_of_past (c := c.step ch rest) h, walk, hr]

/-- Moving on over newlines moves the line by as many. -/
theorem advance_line {c : Cursor} (h : c.past = 0) (n : Nat) :
    (c.advance n).line = c.line + ((c.rest.take n).count '\n' : Nat) := by
  induction n generalizing c with
  | zero => simp
  | succ n ih =>
    cases hr : c.rest with
    | nil => rw [advance_of_past h, walk, hr]; simp
    | cons ch rest =>
      rw [advance_succ h hr, ih (c := c.step ch rest) h, List.take_succ_cons, List.count_cons]
      simp only [step, beq_iff_eq]
      split <;> omega

theorem atOffset_step {text rest : List Char} {k : Nat} {ch : Char} (h : text.drop k = ch :: rest)
    (hk : k ≤ text.length) : (atOffset text k).step ch rest = atOffset text (k + 1) := by
  have hlen : k + 1 ≤ text.length := by
    have := congrArg List.length h
    simp only [List.length_drop, List.length_cons] at this
    omega
  have hrest : text.drop (k + 1) = rest := by
    rw [← List.tail_drop, h]
    rfl
  simp only [step, atOffset, ofText, Text.lineAt_succ h, Text.colAt_succ h, hrest]
  rw [Nat.sub_eq_zero_of_le hk, Nat.sub_eq_zero_of_le hlen]

/-- **Moving on from a true place reaches a true place.** -/
theorem atOffset_advance {text : List Char} {k n : Nat} (h : k + n ≤ text.length) :
    (atOffset text k).advance n = atOffset text (k + n) := by
  induction n generalizing k with
  | zero => rfl
  | succ n ih =>
    obtain ⟨ch, rest, hd⟩ : ∃ ch rest, text.drop k = ch :: rest := by
      cases hd : text.drop k with
      | nil =>
        have := List.drop_eq_nil_iff.1 hd
        omega
      | cons ch rest => exact ⟨ch, rest, rfl⟩
    rw [advance_succ (atOffset_past (by omega)) hd, atOffset_step hd (by omega), ih (by omega)]
    congr 1
    omega

theorem start_advance {text : List Char} {n : Nat} (h : n ≤ text.length) :
    (start text).advance n = atOffset text n := by
  rw [start_eq_atOffset, atOffset_advance (by omega), Nat.zero_add]

end Cursor

end MipsSource
