import MipsSource.Proofs.ProgramLoop
import MipsSource.Proofs.Zones

/-!
# Progress along a line

An item reads a character at least and no newline, so what follows it stands on the same line,
further to the right. The operands of an instruction stand one after the other (`Along`), so their
columns grow. The loop over the items therefore has less to read in every round:

* `Parser.item_inLine`: no item holds a newline.
* `Parser.instruction_along`: mnemonic and operands in the order of the text.
* `Program.Rounds`: the loop, round by round and without a bound. It has one outcome
  (`Rounds.unique`), and from every place it ends (`exists_rounds`).
-/

set_option autoImplicit false

namespace MipsSource

/-! ## Within a line -/

/-- The first `n` characters of a text hold no newline. -/
def InLine (text : List Char) (n : Nat) : Prop :=
  '\n' ∉ text.take n

theorem InLine.le {text : List Char} {m n : Nat} (h : InLine text n) (hm : m ≤ n) :
    InLine text m :=
  fun hmem => h ((List.take_prefix_take_left hm).subset hmem)

theorem inLine_additive : Parser.Additive InLine where
  zero _ := by simp [InLine]
  add text a b ha hb := by
    rw [InLine, List.take_add, List.mem_append]
    exact not_or.2 ⟨ha, hb⟩

/-- A quoted literal with no newline in its body, at the start of a text. -/
theorem inLine_quoted {mark : Char} {body text : List Char} (hm : mark ≠ '\n') (hb : '\n' ∉ body)
    (hp : mark :: body ++ [mark] <+: text) : InLine text (body.length + 2) := by
  have hlen : (mark :: body ++ [mark]).length = body.length + 2 := by simp
  rw [← hlen, InLine, ← List.prefix_iff_eq_take.1 hp]
  simp [hb, hm.symm]

open Lexeme in
theorem inLine_holdsOfLexemes : Parser.HoldsOfLexemes InLine := by
  refine holdsOfLexemes_of_pieces inLine_additive ?_ ?_ ?_ ?_
  · intro text n h hmem
    exact absurd (h '\n' hmem) (by decide)
  · intro mark hmark rest hmem
    simp only [List.take_succ_cons, List.take_zero, List.mem_singleton] at hmem
    subst hmem
    exact absurd hmark (by decide)
  · intro text body h
    obtain ⟨hbody, hp⟩ := character?_eq_some_iff.1 h
    exact inLine_quoted (by decide) hbody.no_newline hp
  · intro text body h
    obtain ⟨hbody, hp⟩ := string?_eq_some_iff.1 h
    exact inLine_quoted (by decide) hbody.no_newline hp

/-- **No item holds a newline.** -/
theorem Parser.item_inLine : item.Ensures fun c _ n => InLine c.rest n :=
  (item_composed inLine_holdsOfLexemes).ensures inLine_additive

namespace Cursor

/-- Moving on within a line moves the column by as much, and nothing else that is counted. -/
theorem advance_inLine {c : Cursor} (h : c.past = 0) {n : Nat} (hn : n ≤ c.rest.length)
    (hline : InLine c.rest n) :
    (c.advance n).line = c.line ∧ (c.advance n).col = c.col + n := by
  refine ⟨?_, ?_⟩
  · rw [advance_line h, List.count_eq_zero_of_not_mem hline]
    simp
  · induction n generalizing c with
    | zero => simp
    | succ n ih =>
      cases hr : c.rest with
      | nil => rw [hr, List.length_nil] at hn; omega
      | cons ch rest =>
        rw [hr, List.length_cons] at hn
        rw [InLine, hr, List.take_succ_cons, List.mem_cons, not_or] at hline
        have hch : ch ≠ '\n' := Ne.symm hline.1
        have hstep : (c.step ch rest).col = c.col + 1 := if_neg hch
        have hrest := ih (c := c.step ch rest) h (Nat.le_of_succ_le_succ hn) hline.2
        rw [advance_succ h hr, hrest, hstep]
        omega

/-- The same in a text that is given as a whole. -/
theorem ofText_advance_inLine {text : List Char} {offset n : Nat} {line col : Int}
    (hn : n ≤ (text.drop offset).length) (hline : InLine (text.drop offset) n) :
    (ofText text offset line col).advance n = ofText text (offset + n) line (col + n) := by
  cases n with
  | zero => simp
  | succ n =>
    have hpast : (ofText text offset line col).past = 0 := by
      rw [List.length_drop] at hn
      exact Nat.sub_eq_zero_of_le (by omega)
    obtain ⟨hl, hc⟩ := advance_inLine hpast hn hline
    obtain ⟨line', col', h⟩ := ofText_advance line col hn
    rw [h] at hl hc ⊢
    obtain rfl : line' = line := hl
    obtain rfl : col' = col + (n + 1 : Nat) := hc
    rfl

end Cursor

/-! ## Operands in order -/

namespace Parser

variable {α β : Type}

/-- Values that are read in this order between `a` and `n` characters ahead of a place, each as `Q`
says, with anything between them. -/
inductive Along (Q : Cursor → α → Nat → Prop) (c : Cursor) (n : Nat) : Nat → List α → Prop
  | nil {a : Nat} : Along Q c n a []
  | cons {a k m : Nat} {v : α} {vs : List α} :
      a ≤ k → k + m ≤ n → Q (c.advance k) v m → Along Q c n (k + m) vs → Along Q c n a (v :: vs)

section
variable {Q : Cursor → α → Nat → Prop} {c : Cursor} {a n : Nat} {vs : List α}

theorem Along.widen (h : Along Q c n a vs) {b l : Nat} (hb : b ≤ a) (hl : n ≤ l) :
    Along Q c l b vs := by
  induction h generalizing b with
  | nil => exact .nil
  | cons hak hkm hq _ ih => exact .cons (by omega) (by omega) hq (ih (Nat.le_refl _))

theorem Along.shift {d : Nat} (h : Along Q (c.advance d) n a vs) :
    Along Q c (d + n) (d + a) vs := by
  induction h with
  | nil => exact .nil
  | @cons a k m v vs hak hkm hq _ ih =>
    rw [Cursor.advance_advance] at hq
    exact .cons (k := d + k) (by omega) (by omega) hq (ih.widen (by omega) (Nat.le_refl _))

/-- The rounds of a loop, each of which reads its value after something else. -/
theorem Chain.along (h : Chain (fun c v n => ∃ k m, k + m ≤ n ∧ Q (c.advance k) v m) c vs n) :
    Along Q c n 0 vs := by
  induction h with
  | nil c => exact .nil
  | @cons c v vs m n hq _ ih =>
    obtain ⟨k, l, hkl, hl⟩ := hq
    exact .cons (Nat.zero_le k) (by omega) hl (ih.shift.widen (by omega) (Nat.le_refl _))

end

theorem Ensures.sepBy1_along {separator : Parser α} {item : Parser β}
    {Q : Cursor → β → Nat → Prop} (hs : separator.Forward) (hi : item.Ensures Q) :
    (Parser.sepBy1 separator item).Ensures fun c vs n => Along Q c n 0 vs := by
  have hnext : (Parser.preceded separator item).Ensures fun c v n =>
      ∃ k m, k + m ≤ n ∧ Q (c.advance k) v m :=
    .preceded hs hi fun c _ a _ b _ hq => ⟨a, b, Nat.le_refl _, hq⟩
  refine .bind hi (fun first => .bind hnext.chain (fun others => .pure (first :: others))
    (S := fun c vs n => ∃ others, vs = first :: others ∧ Along Q c n 0 others) ?_) ?_
  · intro c others a vs b hchain h
    obtain ⟨rfl, rfl⟩ := h
    exact ⟨others, rfl, hchain.along⟩
  · intro c first a vs b hq h
    obtain ⟨others, rfl, hall⟩ := h
    exact .cons (Nat.le_refl 0) (by omega) hq (hall.shift.widen (by omega) (Nat.le_refl _))

theorem spaces1_consumes : spaces1.Consumes := by
  have h : spaces1.Ensures fun _ v n => v.toList ≠ [] ∧ n = v.toList.length := by
    unfold spaces1
    refine word_ensures (P := (· ≠ [])) fun text w hw => ?_
    split at hw
    · cases hw
    · rename_i hne
      cases hw
      exact ⟨hne, Lexeme.length_spaces_le text⟩
  refine h.mono fun c v n hv => ?_
  obtain ⟨hne, rfl⟩ := hv
  exact List.length_pos_iff.2 hne

theorem identifier_length : identifier.Ensures fun _ v n => n = v.length := by
  have h : identifier.Ensures fun _ v n => Lexeme.IsIdentifier v.toList ∧ n = v.toList.length :=
    word_ensures fun _ _ => Lexeme.identifier?_spec
  refine h.mono fun c v n hv => ?_
  rw [hv.2, String.length_toList]

/-- An operand with its column, over one character at least. -/
def ColumnAt (c : Cursor) (placed : Operand × Int) (n : Nat) : Prop :=
  placed.2 = c.col ∧ 0 < n

theorem placedOperand_columnAt : placedOperand.Ensures ColumnAt :=
  placedOperand_ensures.mono fun _ _ _ h => ⟨h.1.1, h.2.2⟩

theorem operandList_along : (withDefault (preceded spaces1 (sepBy1 comma placedOperand)) []).Ensures
    fun c placeds n => Along ColumnAt c n 1 placeds := by
  refine (Ensures.withDefault [] (.preceded spaces1_consumes
    (.sepBy1_along comma_forward placedOperand_columnAt)
    (S := fun c placeds n => Along ColumnAt c n 1 placeds) ?_)).mono ?_
  · intro c _ a placeds b ha h
    exact h.shift.widen ha (Nat.le_refl _)
  · intro c placeds n h
    rcases h with h | ⟨rfl, -⟩
    · exact h
    · exact .nil

/-- **An instruction in the order of the text**: the mnemonic, a space at least, and the operands
one after the other. -/
theorem instruction_along : instruction.Ensures fun c i n =>
    i.col = c.col ∧ Along ColumnAt c n (i.mnemonic.length + 1) i.operands := by
  refine .bind .position (R := fun start c i n => i.col = start.col ∧
    Along ColumnAt c n (i.mnemonic.length + 1) i.operands) (fun start => ?_) ?_
  · refine .bind identifier_length (R := fun mnemonic c i n => i.mnemonic = mnemonic ∧
      i.col = start.col ∧ Along ColumnAt c n 1 i.operands) (fun mnemonic => ?_) ?_
    · refine .bind operandList_along (R := fun operands _ i _ => i =
        { mnemonic := mnemonic, operands := operands, col := start.col }) (fun operands => ?_) ?_
      · exact .bind statementEnd_forward (fun _ => .pure _) fun _ _ _ _ _ _ h => h.1
      · intro c operands a i b h hi
        subst hi
        exact ⟨rfl, rfl, h.widen (Nat.le_refl _) (by omega)⟩
    · intro c mnemonic a i b ha h
      subst ha
      obtain ⟨rfl, hcol, h⟩ := h
      exact ⟨hcol, h.shift⟩
  · intro c start a i b h h'
    obtain ⟨rfl, rfl⟩ := h
    rw [Nat.zero_add]
    exact h'

/-- On one line, operands in order have growing columns. -/
theorem Along.columns {c : Cursor} {a n : Nat} {placeds : List (Operand × Int)}
    (h : Along ColumnAt c n a placeds) (hcol : ∀ k ≤ n, (c.advance k).col = c.col + k) :
    (placeds.map (·.2)).Pairwise (· < ·) ∧
      ∀ placed ∈ placeds, c.col + a ≤ placed.2 ∧ placed.2 < c.col + n := by
  induction h with
  | nil => simp
  | @cons a k m placed placeds hak hkm hq _ ih =>
    obtain ⟨hordered, hbounds⟩ := ih
    obtain ⟨hplace, hm⟩ := hq
    rw [hcol k (by omega)] at hplace
    refine ⟨?_, fun other hother => ?_⟩
    · rw [List.map_cons, List.pairwise_cons]
      refine ⟨fun col hmem => ?_, hordered⟩
      obtain ⟨other, hother, rfl⟩ := List.mem_map.1 hmem
      have := hbounds other hother
      omega
    · rcases List.mem_cons.1 hother with rfl | hother
      · omega
      · have := hbounds other hother
        omega

/-- The columns of an instruction that is read from a place on, over `n` characters. -/
theorem item_columns : item.Ensures fun c i n => ∀ ins, i = .instruction ins → ins.col = c.col ∧
    Along ColumnAt c n (ins.mnemonic.length + 1) ins.operands := by
  refine .choice fun p hp => ?_
  simp only [List.mem_cons, List.not_mem_nil, or_false] at hp
  rcases hp with rfl | rfl | rfl
  · exact .map label_ensures fun _ _ _ _ ins h => by cases h
  · exact .map directive_ensures fun _ _ _ _ ins h => by cases h
  · refine .map instruction_along fun c i n h ins hi => ?_
    cases hi
    exact h

end Parser

/-! ## The loop -/

namespace Cursor

/-- A place that is not beyond the end of its text, or has nothing left to read. -/
def Placed (c : Cursor) : Prop :=
  c.past = 0 ∨ c.rest = []

theorem ofText_placed (text : List Char) (offset : Nat) (line col : Int) :
    (ofText text offset line col).Placed := by
  by_cases h : offset ≤ text.length
  · exact .inl (Nat.sub_eq_zero_of_le h)
  · exact .inr (List.drop_eq_nil_of_le (by omega))

end Cursor

namespace Program

/-- The loop over the items from a place on, without a bound: the number of rounds that begin, and
what it comes to. A round skips blanks, and unless the text ends there it reads an item. -/
inductive Rounds : Cursor → Nat → Except Fault Program → Prop
  | atEnd {c : Cursor} : c.skipBlanks.rest = [] → Rounds c 1 (.ok { items := [] })
  | unmatched {c : Cursor} :
      c.skipBlanks.rest ≠ [] → Parser.item c.skipBlanks = .unmatched →
      Rounds c 1 (.error (.source (expectedItem c.skipBlanks)))
  | failed {c : Cursor} {fault : Fault} :
      c.skipBlanks.rest ≠ [] → Parser.item c.skipBlanks = .failed fault →
      Rounds c 1 (.error fault)
  | item {c after : Cursor} {v : Item} {n : Nat} {r : Except Fault Program} :
      c.skipBlanks.rest ≠ [] → Parser.item c.skipBlanks = .matched v after → Rounds after n r →
      Rounds c (n + 1) (r.map fun p => { items := (v, c.skipBlanks.line) :: p.items })

theorem Rounds.unique {c : Cursor} {m n : Nat} {r s : Except Fault Program} (h : Rounds c m r)
    (h' : Rounds c n s) : m = n ∧ r = s := by
  induction h generalizing n s with
  | atEnd hend =>
    cases h' with
    | atEnd => exact ⟨rfl, rfl⟩
    | unmatched hne | failed hne | item hne => exact absurd hend hne
  | unmatched hne hm =>
    cases h' with
    | atEnd hend => exact absurd hend hne
    | unmatched => exact ⟨rfl, rfl⟩
    | failed _ hm' | item _ hm' => rw [hm] at hm'; cases hm'
  | failed hne hm =>
    cases h' with
    | atEnd hend => exact absurd hend hne
    | unmatched _ hm' | item _ hm' => rw [hm] at hm'; cases hm'
    | failed _ hm' =>
      rw [hm] at hm'
      cases hm'
      exact ⟨rfl, rfl⟩
  | item hne hm _ ih =>
    cases h' with
    | atEnd hend => exact absurd hend hne
    | unmatched _ hm' | failed _ hm' => rw [hm] at hm'; cases hm'
    | item _ hm' hrest =>
      rw [hm] at hm'
      cases hm'
      obtain ⟨rfl, rfl⟩ := ih hrest
      exact ⟨rfl, rfl⟩

/-- Where nothing is left the loop stops in its first round, also beyond the end of the text. -/
theorem rounds_of_nil {c : Cursor} (h : c.rest = []) : Rounds c 1 (read c) := by
  have hskip : c.skipBlanks = c := by rw [Cursor.skipBlanks, h]; rfl
  have hcollect : Parser.collect Parser.placedItem c = .ok ([], c) := by
    rw [Parser.collect_eq Parser.placedItem_forward, Parser.placedItem_apply, hskip,
      Parser.item_of_nil h]
  have hread : read c = .ok { items := [] } := by
    rw [read_of_collect hcollect, hskip, Cursor.atEnd, h]
    rfl
  rw [hread]
  exact .atEnd (by rw [hskip, h])

/-- **The loop ends**: a round that reads an item leaves less to read, so what is left bounds the
rounds. -/
theorem exists_rounds {c : Cursor} (hc : c.Placed) :
    ∃ n, n ≤ c.rest.length + 1 ∧ Rounds c n (read c) := by
  rcases hc with hc | hc
  · induction hlen : c.rest.length using Nat.strongRecOn generalizing c with
    | _ len ih =>
      by_cases hend : c.skipBlanks.rest = []
      · rw [read_atEnd hc hend]
        exact ⟨1, by omega, .atEnd hend⟩
      · cases hm : Parser.item c.skipBlanks with
        | unmatched =>
          rw [read_unmatched hc hend hm]
          exact ⟨1, by omega, .unmatched hend hm⟩
        | failed fault =>
          rw [read_failed hc hm]
          exact ⟨1, by omega, .failed hend hm⟩
        | matched v after =>
          obtain ⟨n, hn, rfl, -, -, hpos⟩ := Parser.item_ensures _ _ _ hm
          have hlt : (c.skipBlanks.advance n).rest.length < len :=
            hlen ▸ Cursor.skipBlanks_advance_lt hpos hn
          have hpast := Cursor.advance_past (Cursor.skipBlanks_past hc) n
          obtain ⟨k, hk, hrounds⟩ := ih _ hlt hpast rfl
          rw [read_matched hc hm]
          exact ⟨k + 1, by omega, .item hend hm hrounds⟩
  · exact ⟨1, by omega, rounds_of_nil hc⟩

/-- **Every item makes progress and stays on its line**, wherever it starts: it reads a character at
least and no newline, so line and column after it are those before it, moved on by what was read.
The columns of an instruction grow from its own over those of its operands to the column after it.
Hence the loop over the items has, from every place, one outcome and no more rounds than characters
are left, and one. -/
theorem item_progress_and_rounds (text : List Char) (offset : Nat) (line col : Int) :
    (∀ i after, Parser.item (.ofText text offset line col) = .matched i after →
      ∃ n, 0 < n ∧ offset + n ≤ text.length ∧ '\n' ∉ (text.drop offset).take n ∧
        after = .ofText text (offset + n) line (col + n) ∧
        ∀ ins, i = .instruction ins →
          ins.col = col ∧ (ins.operands.map (·.2)).Pairwise (· < ·) ∧
          ∀ placed ∈ ins.operands, col + ins.mnemonic.length < placed.2 ∧ placed.2 < after.col) ∧
    ∃ rounds, rounds ≤ text.length - offset + 1 ∧
      ∀ m r, Rounds (.ofText text offset line col) m r ↔
        m = rounds ∧ r = read (.ofText text offset line col) := by
  constructor
  · intro i after h
    have hitem := (Parser.item_ensures.and Parser.item_inLine).and Parser.item_columns
    obtain ⟨n, hn, rfl, ⟨⟨-, -, hpos⟩, hline⟩, hcols⟩ := hitem _ _ _ h
    have hafter : ∀ k ≤ n, (Cursor.ofText text offset line col).advance k =
        .ofText text (offset + k) line (col + k) := fun k hk =>
      Cursor.ofText_advance_inLine (Nat.le_trans hk hn) (hline.le hk)
    have hend : offset + n ≤ text.length := by
      simp only [Cursor.ofText, List.length_drop] at hn
      omega
    refine ⟨n, hpos, hend, hline, hafter n (Nat.le_refl n), fun ins hi => ?_⟩
    obtain ⟨hcol, halong⟩ := hcols ins hi
    obtain ⟨hordered, hbounds⟩ := halong.columns fun k hk => by rw [hafter k hk]; rfl
    refine ⟨hcol, hordered, fun placed hp => ?_⟩
    rw [hafter n (Nat.le_refl n)]
    have := hbounds placed hp
    simp only [Cursor.ofText] at this ⊢
    omega
  · obtain ⟨n, hn, hrounds⟩ := exists_rounds (Cursor.ofText_placed text offset line col)
    refine ⟨n, by simpa [Cursor.ofText] using hn, fun m r => ⟨fun h => h.unique hrounds, ?_⟩⟩
    intro h
    obtain ⟨rfl, rfl⟩ := h
    exact hrounds

theorem item_progress_and_rounds_load :
    Parser.item (.ofText "x: lw  $t0 , 4( $sp );\nadd".toList 3 1 4) =
        .matched (.instruction { mnemonic := "lw", col := 4, operands :=
          [(.register ⟨8⟩, 8), (.memory ⟨29⟩ (some (.immediate 4)), 14)] })
          (.ofText "x: lw  $t0 , 4( $sp );\nadd".toList 22 1 23) ∧
      (∃ n, 0 < n ∧ 3 + n ≤ 26 ∧
        Cursor.ofText "x: lw  $t0 , 4( $sp );\nadd".toList 22 1 23 =
          .ofText "x: lw  $t0 , 4( $sp );\nadd".toList (3 + n) 1 (4 + n)) ∧
      ∃ rounds, rounds ≤ 24 ∧
        Rounds (.ofText "x: lw  $t0 , 4( $sp );\nadd".toList 3 1 4) rounds
          (read (.ofText "x: lw  $t0 , 4( $sp );\nadd".toList 3 1 4)) := by
  have h : Parser.item (.ofText "x: lw  $t0 , 4( $sp );\nadd".toList 3 1 4) =
      .matched (.instruction { mnemonic := "lw", col := 4, operands :=
        [(.register ⟨8⟩, 8), (.memory ⟨29⟩ (some (.immediate 4)), 14)] })
        (.ofText "x: lw  $t0 , 4( $sp );\nadd".toList 22 1 23) := by
    decide +kernel
  obtain ⟨hprogress, rounds, hle, hrounds⟩ :=
    item_progress_and_rounds "x: lw  $t0 , 4( $sp );\nadd".toList 3 1 4
  obtain ⟨n, hpos, hend, -, hafter, -⟩ := hprogress _ _ h
  exact ⟨h, ⟨n, hpos, hend, hafter⟩, rounds, hle, (hrounds _ _).2 ⟨rfl, rfl⟩⟩

end Program

end MipsSource
