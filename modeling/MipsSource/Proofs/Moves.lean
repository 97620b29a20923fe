import MipsSource.Proofs.Place

/-!
# Moving over pieces of a text

A cursor counts line and column character by character. `jump` computes the same place at once from
the piece of text that is passed: its newlines, what stands after the last of them, and its length.
The piece ends with the text, so a place beyond the end moves back to it, and its column by as much.

* `walk_eq`: what walking makes of each field; `moveBy_eq_jump`: moving on is a jump.
* `moveBy_pieces`: from every place, moving over the pieces of a text in turn is moving over them at
  once.
-/

set_option autoImplicit false

namespace MipsSource

namespace Text

/-- The column after a piece of text that starts in column `col`. -/
def colAfter (col : Int) (piece : List Char) : Int :=
  if '\n' ∈ piece then 1 + (piece.reverse.takeWhile (· ≠ '\n')).length else col + piece.length

@[simp]
theorem colAfter_nil (col : Int) : colAfter col [] = col := by
  simp [colAfter]

/-- Only what stands after the last newline counts. -/
theorem colAfter_of_reverse {piece after before : List Char}
    (h : piece.reverse = after ++ '\n' :: before) (hafter : '\n' ∉ after) (col : Int) :
    colAfter col piece = 1 + after.length := by
  have hmem : '\n' ∈ piece := by
    rw [← List.mem_reverse, h]
    simp
  have hplain : ∀ c ∈ after, decide (c ≠ '\n') = true := fun c hc =>
    decide_eq_true fun he => hafter (he ▸ hc)
  have hstop : ¬ decide ('\n' ≠ '\n') = true := by decide
  rw [colAfter, if_pos hmem, h, List.takeWhile_append_of_pos hplain, List.takeWhile_cons,
    if_neg hstop, List.append_nil]

/-- The first character of a piece moves the column on, or back to one. -/
theorem colAfter_cons (col : Int) (c : Char) (piece : List Char) :
    colAfter col (c :: piece) = colAfter (if c = '\n' then 1 else col + 1) piece := by
  by_cases hpiece : '\n' ∈ piece
  · obtain ⟨after, before, hrev, hafter⟩ :=
      List.eq_append_cons_of_mem (List.mem_reverse.2 hpiece)
    have hcons : (c :: piece).reverse = after ++ '\n' :: (before ++ [c]) := by
      rw [List.reverse_cons, hrev, List.append_assoc, List.cons_append]
    rw [colAfter_of_reverse hcons hafter, colAfter_of_reverse hrev hafter]
  · by_cases hc : c = '\n'
    · subst hc
      have hcons : ('\n' :: piece).reverse = piece.reverse ++ '\n' :: [] := List.reverse_cons
      rw [colAfter_of_reverse hcons (mt List.mem_reverse.1 hpiece), colAfter, if_neg hpiece,
        if_pos rfl, List.length_reverse]
    · have hcons : '\n' ∉ c :: piece := by simp [hpiece, Ne.symm hc]
      rw [colAfter, colAfter, if_neg hcons, if_neg hpiece, if_neg hc, List.length_cons]
      omega

end Text

namespace Cursor

open Text (colAfter colAfter_cons)

/-- **What walking makes of each field**: the piece that is passed settles line and column. -/
theorem walk_eq (n : Nat) (c : Cursor) :
    walk n c =
      { rest := c.rest.drop n
        offset := c.offset + (c.rest.take n).length
        past := c.past
        line := c.line + (c.rest.take n).count '\n'
        col := colAfter c.col (c.rest.take n) } := by
  induction n generalizing c with
  | zero => simp [walk]
  | succ n ih =>
    obtain ⟨rest, offset, past, line, col⟩ := c
    cases rest with
    | nil => simp [walk]
    | cons ch rest =>
      refine (ih (step _ ch rest)).trans ?_
      simp only [step, List.take_succ_cons, List.drop_succ_cons, colAfter_cons, List.length_cons,
        List.count_cons, beq_iff_eq, Cursor.mk.injEq, true_and, and_true]
      refine ⟨by omega, ?_⟩
      split <;> omega

/-- The place `n` characters on, computed from the piece of the text up to there. -/
def jump (text : List Char) (offset : Nat) (line col n : Int) : Cursor :=
  let stop := min (offset + n.toNat) text.length
  let piece := (text.take stop).drop offset
  let newlines := piece.count '\n'
  if n ≤ 0 then ofText text offset line col
  else if newlines = 0 then ofText text stop line (col + (stop - offset))
  else
    ofText text stop (line + newlines) (1 + (piece.reverse.takeWhile (· ≠ '\n')).length)

/-- The piece up to there is what is read ahead. -/
theorem piece_eq (text : List Char) (offset n : Nat) :
    (text.take (min (offset + n) text.length)).drop offset = (text.drop offset).take n := by
  rw [List.drop_take]
  by_cases h : offset + n ≤ text.length
  · rw [Nat.min_eq_left h, Nat.add_sub_cancel_left]
  · have hlen : (text.drop offset).length = text.length - offset := List.length_drop
    rw [Nat.min_eq_right (by omega), List.take_of_length_le (by omega),
      List.take_of_length_le (by omega)]

/-- Moving on by a character at least ends in the text, after the piece that is read. -/
theorem moveBy_ofText (text : List Char) (offset : Nat) (line col : Int) {n : Int} (hn : 0 < n) :
    (ofText text offset line col).moveBy n =
      ofText text (min (offset + n.toNat) text.length)
        (line + ((text.drop offset).take n.toNat).count '\n')
        (colAfter (col - (offset - text.length : Nat)) ((text.drop offset).take n.toNat)) := by
  have hlen : ((text.drop offset).take n.toNat).length = min n.toNat (text.length - offset) := by
    rw [List.length_take, List.length_drop]
  have hrest : (text.drop offset).drop n.toNat =
      text.drop (min (offset + n.toNat) text.length) := by
    rw [List.drop_drop]
    by_cases h : offset + n.toNat ≤ text.length
    · rw [Nat.min_eq_left h]
    · rw [Nat.min_eq_right (by omega), List.drop_length, List.drop_eq_nil_iff]
      omega
  rw [moveBy, advance, if_neg (by omega), walk_eq]
  simp only [backToEnd, ofText, hrest, hlen, Cursor.mk.injEq, true_and, and_true]
  omega

/-- **Moving on is a jump**, wherever it starts, also beyond the end of the text. -/
theorem moveBy_eq_jump (text : List Char) (offset : Nat) (line col n : Int) :
    (ofText text offset line col).moveBy n = jump text offset line col n := by
  by_cases hn : n ≤ 0
  · have hzero : n.toNat = 0 := by omega
    rw [moveBy, hzero, advance_zero, jump, if_pos hn]
  · have hlen : ((text.drop offset).take n.toNat).length =
        min n.toNat (text.length - offset) := by
      rw [List.length_take, List.length_drop]
    rw [moveBy_ofText text offset line col (by omega), colAfter, jump, if_neg hn, piece_eq]
    by_cases hmem : '\n' ∈ (text.drop offset).take n.toNat
    · rw [if_pos hmem, if_neg (mt List.count_eq_zero.1 (not_not_intro hmem))]
    · rw [if_neg hmem, List.count_eq_zero_of_not_mem hmem, if_pos rfl]
      congr 1
      · simp
      · omega

/-! ## Moving in turn -/

theorem moveBy_moveBy {a b : Int} (ha : 0 ≤ a) (hb : 0 ≤ b) (c : Cursor) :
    (c.moveBy a).moveBy b = c.moveBy (a + b) := by
  rw [moveBy, moveBy, moveBy, advance_advance, ← Int.toNat_add ha hb]

theorem moveBy_of_nonpos {n : Int} (hn : n ≤ 0) (c : Cursor) : c.moveBy n = c := by
  rw [moveBy, Int.toNat_of_nonpos hn, advance_zero]

/-- Moving over pieces of text, one after the other. -/
def moveAlong (pieces : List (List Char)) (c : Cursor) : Cursor :=
  pieces.foldl (fun d piece => d.moveBy piece.length) c

theorem moveAlong_eq (pieces : List (List Char)) (c : Cursor) :
    c.moveAlong pieces = c.moveBy pieces.flatten.length := by
  induction pieces generalizing c with
  | nil => rfl
  | cons piece pieces ih =>
    calc c.moveAlong (piece :: pieces)
        = (c.moveBy piece.length).moveAlong pieces := rfl
      _ = (c.moveBy piece.length).moveBy pieces.flatten.length := ih _
      _ = c.moveBy (piece :: pieces).flatten.length := by
        rw [moveBy_moveBy (by omega) (by omega), List.flatten_cons, List.length_append,
          Int.natCast_add]

/-- **Moving over the pieces of a text in turn is moving over them at once**, from every place, also
beyond the end of the text: both are the jump over all of them. A count that is not positive moves
nothing. -/
theorem moveBy_pieces (text : List Char) (offset : Nat) (line col : Int) :
    (∀ a b : Int, 0 ≤ a → 0 ≤ b →
      ((ofText text offset line col).moveBy a).moveBy b =
        (ofText text offset line col).moveBy (a + b)) ∧
      (∀ n : Int, n ≤ 0 → (ofText text offset line col).moveBy n = ofText text offset line col) ∧
      ∀ pieces : List (List Char),
        (ofText text offset line col).moveAlong pieces =
            (ofText text offset line col).moveBy pieces.flatten.length ∧
          (ofText text offset line col).moveAlong pieces =
            jump text offset line col pieces.flatten.length := by
  refine ⟨fun a b ha hb => moveBy_moveBy ha hb _, fun n hn => moveBy_of_nonpos hn _, ?_⟩
  intro pieces
  have hall := moveAlong_eq pieces (ofText text offset line col)
  exact ⟨hall, hall.trans (moveBy_eq_jump text offset line col pieces.flatten.length)⟩

/-- Pieces that end before and after a newline and beyond the end of the text, and a place beyond
the end, which moves back to it. -/
theorem moveBy_pieces_newline :
    (ofText "ab\ncd\ne".toList 1 4 9).moveAlong
          ["b".toList, [], "\n".toList, "cd\n".toList, "e#".toList] =
        jump "ab\ncd\ne".toList 1 4 9 7 ∧
      jump "ab\ncd\ne".toList 1 4 9 7 = ofText "ab\ncd\ne".toList 7 6 2 ∧
      ((ofText "ab\n".toList 5 1 9).moveBy 2).moveBy 4 = (ofText "ab\n".toList 5 1 9).moveBy 6 ∧
      (ofText "ab\n".toList 5 1 9).moveBy 6 = ofText "ab\n".toList 3 1 7 ∧
      (ofText "ab\n".toList 5 1 9).moveBy (-2) = ofText "ab\n".toList 5 1 9 := by
  obtain ⟨-, -, halong⟩ := moveBy_pieces "ab\ncd\ne".toList 1 4 9
  obtain ⟨htwo, hnone, -⟩ := moveBy_pieces "ab\n".toList 5 1 9
  exact ⟨(halong _).2, by decide, htwo 2 4 (by decide) (by decide), by decide,
    hnone (-2) (by decide)⟩

end Cursor

end MipsSource
