import MipsSource.Proofs.Offences
import MipsSource.Proofs.TruncatedItems

/-!
# The frontier of a text

Where no item can be read, reading ends with an error: the frontier. The text before the frontier is
a program of its own. Its items were read with the whole text ahead, so it has to be seen that the
text cut off at the frontier gives the same items:

* `Lexeme.seamAt_blank`, `Parser.item_seam`: blanks and items end at seams, so there is a seam at
  the frontier.
* `Program.item_take`: an item is read the same from a text that is cut off at a seam behind it.
* `Program.read_noItem`: from any true place on, what stands before the frontier can be read.
* `Program.read_frontier`: the error points at the frontier of the text.
-/

set_option autoImplicit false

namespace MipsSource

/-! ## Blanks at a cut -/

namespace Lexeme

theorem IsGap.seam {after gap : List Char} (h : IsGap after gap) : Seam gap after := by
  induction h with
  | nil => exact seam_nil after
  | @blank c rest hc _ ih =>
    by_cases hrest : rest = []
    · have hword : isWordChar c = false := by
        rcases hc with rfl | rfl | rfl <;> decide
      rw [hrest]
      exact seam_of_last hword [] after
    · exact ih.append_left hrest [c]
  | @comment body rest _ hend _ ih =>
    by_cases hrest : rest = []
    · -- the comment ends where the line or the text ends
      rw [hrest, List.nil_append] at hend
      exact .inr (.inl hend.ends.startsWord)
    · exact ih.append_left hrest ('#' :: body)

theorem seamAt_blank (text : List Char) : SeamAt text (blankLength false text) :=
  (isGap_blankLength text).seam

end Lexeme

/-! ## Items at a cut -/

namespace Parser

open Lexeme

theorem seamAt_additive : Additive SeamAt :=
  ⟨fun text => seam_nil (text.drop 0), fun _ _ _ => SeamAt.add⟩

theorem seamAt_lexemes : HoldsOfLexemes SeamAt where
  identifier _ _ h := (identifier?_ends h).2
  integer _ _ h := (integer?_ends h).2
  symbolOffset _ _ _ h := (symbolOffset?_ends h).2
  tag word hw text h := by
    obtain ⟨q, hq, hplain, hdollar⟩ :
        ∃ q, word.toList = [] ++ [q] ∧ isPlain q = false ∧ q ≠ '$' := by
      simp only [List.mem_cons, List.not_mem_nil, or_false] at hw
      rcases hw with rfl | rfl | rfl | rfl | rfl <;> exact ⟨_, rfl, by decide, by decide⟩
    rw [hq] at h ⊢
    exact (ends_of_last hplain hdollar h).2
  spaces := seam_spaces
  directiveName _ _ h := (directiveName?_ends h).2
  label _ _ _ h := (label?_ends h).2
  registerName _ _ h := (registerName?_ends h).2
  decimal _ _ _ h := (decimal?_ends h).2
  character _ _ h := (quoted_ends (by decide) (by decide) (character?_eq_some_iff.1 h).2).2
  string _ _ h := (quoted_ends (by decide) (by decide) (string?_eq_some_iff.1 h).2).2

theorem item_seam : item.Ensures fun c _ n => SeamAt c.rest n :=
  (item_composed seamAt_lexemes).ensures seamAt_additive

end Parser

namespace Program

open Lexeme

variable {text : List Char} {b k : Nat}

theorem drop_eq_take_append (hb : b ≤ k) (hk : k ≤ text.length) :
    text.drop b = (text.take k).drop b ++ text.drop k := by
  rw [← List.drop_append_of_le_length (by rw [List.length_take]; omega), List.take_append_drop]

/-- The same place before a cut at a seam. -/
theorem atCut_take (hb : b ≤ k) (hk : k ≤ text.length) (hseam : SeamAt (text.drop b) (k - b))
    (hspace : (text.drop k).head? ≠ some ' ') :
    AtCut (text.drop k) (.atOffset text b) (.atOffset (text.take k) b) := by
  have htake : (text.take k).take b = text.take b := by rw [List.take_take, Nat.min_eq_left hb]
  refine ⟨⟨⟨(text.take k).drop b, drop_eq_take_append hb hk, (List.append_nil _).symm⟩,
    Cursor.atOffset_past (by omega), Cursor.atOffset_past (by rw [List.length_take]; omega),
    ?_, ?_, rfl⟩, hspace, ?_⟩
  · simp only [Cursor.atOffset_line, Text.lineAt, htake, Int.add_zero]
  · simp only [Cursor.atOffset_col, Text.colAt, htake]
  · rw [SeamAt, List.drop_drop, Nat.add_sub_cancel' hb, ← List.drop_take] at hseam
    exact hseam

theorem ItemAt.seam {v : Item × Int} {e : Nat} (hat : ItemAt text (b, e) v) :
    SeamAt (text.drop b) (e - b) := by
  obtain ⟨n, hn, hadv, hseam⟩ := Parser.item_seam _ _ _ hat.reads
  have hbe : b < e := hat.nonempty
  have het : e ≤ text.length := hat.within
  have hoffset : e = b + n := by
    have hmoved := congrArg Cursor.offset hadv
    rwa [Cursor.advance_offset (Cursor.atOffset_past (by omega)) hn] at hmoved
  rw [hoffset, Nat.add_sub_cancel_left]
  exact hseam

/-- Seams behind one another, at offsets of the text. -/
theorem seamAt_trans {a : Nat} (ha : a ≤ b) (hb : b ≤ k) (hab : SeamAt (text.drop a) (b - a))
    (hbk : SeamAt (text.drop b) (k - b)) : SeamAt (text.drop a) (k - a) := by
  have hsplit : k - a = (b - a) + (k - b) := by omega
  rw [hsplit]
  refine hab.add ?_
  rw [List.drop_drop, Nat.add_sub_cancel' ha]
  exact hbk

/-- **An item before a cut.** It is read the same from the text that is cut off at a seam behind
it. -/
theorem item_take {v : Item} {line : Int} {e : Nat} (hat : ItemAt text (b, e) (v, line))
    (he : e ≤ k) (hk : k ≤ text.length) (hseam : SeamAt (text.drop e) (k - e))
    (hspace : (text.drop k).head? ≠ some ' ') :
    Parser.item (.atOffset (text.take k) b) = .matched v (.atOffset (text.take k) e) := by
  have hbe : b < e := hat.nonempty
  have hcut := atCut_take (by omega) hk (seamAt_trans (Nat.le_of_lt hbe) he hat.seam hseam) hspace
  have hr := Parser.item_loose.replies _ _ hcut
  have hreads : Parser.item (.atOffset text b) = .matched v (.atOffset text e) := hat.reads
  rw [hreads] at hr
  generalize hy : Parser.item (.atOffset (text.take k) b) = y at hr
  cases hr with
  | past hlen _ =>
    rw [Cursor.atOffset_rest, List.length_drop, List.length_drop] at hlen
    omega
  | matched hv hat' =>
    obtain ⟨e', rfl, -⟩ := itemAt_of_matched (by rw [List.length_take]; omega) hy
    have hoffset : e' = e := hat'.beside.offset
    rw [hv, hoffset]

/-- Blanks before a cut. -/
theorem skipBlanks_take {j : Nat} (hj : j + blankLength false (text.drop j) ≤ k)
    (hk : k ≤ text.length) :
    (Cursor.atOffset (text.take k) j).skipBlanks =
      .atOffset (text.take k) (j + blankLength false (text.drop j)) := by
  have hsplit := drop_eq_take_append (show j ≤ k by omega) hk
  have hblank : blankLength false (text.drop j) = blankLength false ((text.take k).drop j) := by
    rw [hsplit]
    apply blankLength_append
    rw [← hsplit, List.length_drop, List.length_take]
    omega
  rw [skipBlanks_atOffset (by rw [List.length_take]; omega), hblank]

/-! ## The frontier -/

/-- The frontier of a text: a place that is no blank, where no item can be read. -/
structure Frontier (text : List Char) (k : Nat) : Prop where
  within : k < text.length
  visible : ∃ c, text[k]? = some c ∧ c ∉ [' ', '\r', '\n', '#']
  noItem : Parser.item (.atOffset text k) = .unmatched

theorem Frontier.not_space (h : Frontier text k) : (text.drop k).head? ≠ some ' ' := by
  obtain ⟨c, hc, hvisible⟩ := h.visible
  rw [List.head?_drop, hc]
  rintro ⟨rfl⟩
  exact hvisible (by simp)

section
variable {j : Nat}

/-- Where no item can be read after blanks, there is the frontier. -/
theorem frontier_of_unmatched (hb : j + blankLength false (text.drop j) < text.length)
    (h : Parser.item (.atOffset text (j + blankLength false (text.drop j))) = .unmatched) :
    Frontier text (j + blankLength false (text.drop j)) := by
  have hhead := List.getElem?_eq_getElem hb
  refine ⟨hb, ⟨_, hhead, ?_⟩, h⟩
  rw [← List.head?_drop, ← List.drop_drop] at hhead
  exact head_drop_blankLength hhead

/-- What is before a cut after blanks can be read: there is no item in it. -/
theorem read_take_blanks (hj : j ≤ text.length) :
    ∃ p, read (.atOffset (text.take (j + blankLength false (text.drop j))) j) = .ok p := by
  have hle := blankLength_le false (text.drop j)
  rw [List.length_drop] at hle
  refine ⟨_, read_atEnd (Cursor.atOffset_past (by rw [List.length_take]; omega)) ?_⟩
  rw [skipBlanks_take (Nat.le_refl _) (by omega), Cursor.atOffset_rest, List.drop_take,
    Nat.sub_self, List.take_zero]

/-- **One more item before a cut**: what is before the cut can be read from before the item, if it
can be read from behind the item. -/
theorem read_take_item {entry : Item × Int} {e : Nat} {q : Program}
    (hat : ItemAt text (j + blankLength false (text.drop j), e) entry) (he : e ≤ k)
    (hk : k ≤ text.length) (hseam : SeamAt (text.drop e) (k - e))
    (hspace : (text.drop k).head? ≠ some ' ') (hq : read (.atOffset (text.take k) e) = .ok q) :
    ∃ p, read (.atOffset (text.take k) j) = .ok p := by
  have hbe : j + blankLength false (text.drop j) < e := hat.nonempty
  have hitem := item_take hat he hk hseam hspace
  rw [← skipBlanks_take (by omega) hk] at hitem
  rw [read_matched (Cursor.atOffset_past (by rw [List.length_take]; omega)) hitem, hq]
  exact ⟨_, rfl⟩

/-- **Up to the frontier.** If reading from a true place on ends because no item can be read, it
ends at the frontier, and what is before the frontier can be read. -/
theorem read_noItem {e : SourceError} {message : String} (hj : j ≤ text.length)
    (h : read (.atOffset text j) = .error (.source e)) (hc : e.cause = .noItem message) :
    ∃ k, j ≤ k ∧ Frontier text k ∧ e = expectedItem (.atOffset text k) ∧
      SeamAt (text.drop j) (k - j) ∧ ∃ p, read (.atOffset (text.take k) j) = .ok p := by
  -- induction on what is left to read; the seam at the frontier is carried back over each item
  induction hlen : text.length - j using Nat.strongRecOn generalizing j with
  | _ m ih =>
    have hle := blankLength_le false (text.drop j)
    rw [List.length_drop] at hle
    have hgap : SeamAt (text.drop j) (j + blankLength false (text.drop j) - j) := by
      rw [Nat.add_sub_cancel_left]
      exact seamAt_blank (text.drop j)
    rw [read_eq (Cursor.atOffset_past hj), skipBlanks_atOffset hj] at h
    split at h
    · cases h
    · rename_i hend
      split at h
      · rename_i v after hm
        obtain ⟨e', rfl, hat⟩ := itemAt_of_matched (by omega) hm
        have hbe : j + blankLength false (text.drop j) < e' := hat.nonempty
        have het : e' ≤ text.length := hat.within
        have hrest : read (.atOffset text e') = .error (.source e) := by
          cases hr : read (.atOffset text e') with
          | ok q => rw [hr] at h; cases h
          | error fault => rw [hr] at h; cases h; rfl
        obtain ⟨k, hek, hfront, he, hseam, q, hq⟩ :=
          ih (text.length - e') (by omega) het hrest rfl
        have hk := Nat.le_of_lt hfront.within
        refine ⟨k, by omega, hfront, he, ?_, read_take_item hat hek hk hseam hfront.not_space hq⟩
        exact seamAt_trans (by omega) (by omega) hgap (seamAt_trans (by omega) hek hat.seam hseam)
      · rename_i hnone
        cases h
        have hwithin : j + blankLength false (text.drop j) < text.length := by
          refine Nat.lt_of_not_le fun hge => hend ?_
          rw [Cursor.atEnd, Cursor.atOffset_rest, List.drop_eq_nil_of_le hge]
          rfl
        exact ⟨_, by omega, frontier_of_unmatched hwithin hnone, rfl, hgap, read_take_blanks hj⟩
      · -- an item that fails gives an error of another kind
        rename_i fault hm
        cases h
        obtain ⟨n, -, hoffends⟩ := Parser.item_blames _ _ hm
        exact absurd hc hoffends.cause_ne

end

/-- **The error marks the frontier.** If reading a text ends because no item can be read, the error
has the line and the column of a place that is no blank, no item can be read there, and the text
before it is a program. -/
theorem read_frontier {e : SourceError} {message : String}
    (h : read (.start text) = .error (.source e)) (hc : e.cause = .noItem message) :
    ∃ k, k < text.length ∧ e.line = some (Text.lineAt text k) ∧
      e.col = some (Text.colAt text k) ∧
      (∃ c, text[k]? = some c ∧ c ∉ [' ', '\r', '\n', '#']) ∧
      Parser.item (.atOffset text k) = .unmatched ∧
      ∃ p, read (.start (text.take k)) = .ok p := by
  rw [Cursor.start_eq_atOffset] at h
  obtain ⟨k, -, hfront, rfl, -, hread⟩ := read_noItem (Nat.zero_le _) h hc
  rw [← Cursor.start_eq_atOffset] at hread
  exact ⟨k, hfront.within, rfl, rfl, hfront.visible, hfront.noItem, hread⟩

/-- A place in memory that is not closed: the parenthesis is the frontier, and the text before it
ends with a number. -/
theorem read_frontier_memory :
    ∃ text e, text = "main:\n  lw $t0, 4( $sp".toList ∧ e = expectedItem (.atOffset text 17) ∧
      read (.start text) = .error (.source e) ∧
      ∃ k, k < text.length ∧ e.line = some (Text.lineAt text k) ∧
        e.col = some (Text.colAt text k) ∧
        (∃ c, text[k]? = some c ∧ c ∉ [' ', '\r', '\n', '#']) ∧
        Parser.item (.atOffset text k) = .unmatched ∧
        ∃ p, read (.start (text.take k)) = .ok p := by
  have h : read (.start "main:\n  lw $t0, 4( $sp".toList) =
      .error (.source (expectedItem (.atOffset "main:\n  lw $t0, 4( $sp".toList 17))) := by
    decide +kernel
  exact ⟨_, _, rfl, rfl, h, read_frontier h rfl⟩

end Program

end MipsSource
