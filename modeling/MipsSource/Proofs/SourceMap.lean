import MipsSource.Proofs.ProgramLoop
import Mathlib.Data.List.Forall2

/-!
# Where the items of a program stand

The items of a program are read from consecutive pieces of its text, and what lies between the
pieces is blank:

* `read_itemsAt`: from any true place on, the items lie at places with gaps between them.
* `read_sourceMap`: so a whole text is split into items and blanks, in order, with true lines and
  columns, and nothing is lost.
* `ofText_wellFormed`: every item of a program that is read is well formed.
-/

set_option autoImplicit false

namespace MipsSource

namespace Program

/-! ## Places of items -/

/-- The item of `entry` is what the text holds between two offsets, with its true line and
columns. -/
structure ItemAt (text : List Char) (place : Nat × Nat) (entry : Item × Int) : Prop where
  nonempty : place.1 < place.2
  within : place.2 ≤ text.length
  reads : Parser.item (.atOffset text place.1) = .matched entry.1 (.atOffset text place.2)
  line : entry.2 = Text.lineAt text place.1
  columns : ∀ i, entry.1 = .instruction i → i.col = Text.colAt text place.1 ∧
    ∀ placed ∈ i.operands, ∃ k, place.1 ≤ k ∧ k < place.2 ∧ placed.2 = Text.colAt text k ∧
      ∃ after, Parser.operand (.atOffset text k) = .matched placed.1 after

/-- From the offset `k` on, the text is places in order with only blanks before, between and after
them. -/
def GapsFrom (text : List Char) : Nat → List (Nat × Nat) → Prop
  | k, [] => k ≤ text.length ∧ Lexeme.IsGap [] (text.drop k)
  | k, place :: places =>
    k ≤ place.1 ∧ Lexeme.IsGap (text.drop place.1) ((text.drop k).take (place.1 - k)) ∧
      GapsFrom text place.2 places

theorem skipBlanks_atOffset {text : List Char} {k : Nat} (hk : k ≤ text.length) :
    (Cursor.atOffset text k).skipBlanks =
      .atOffset text (k + Lexeme.blankLength false (text.drop k)) := by
  have hle := Lexeme.blankLength_le false (text.drop k)
  rw [List.length_drop] at hle
  rw [Cursor.skipBlanks, Cursor.atOffset_rest, Cursor.atOffset_advance (by omega)]

/-- A match of an item at a true place puts it between two offsets. -/
theorem itemAt_of_matched {text : List Char} {b : Nat} {v : Item} {after : Cursor}
    (hb : b ≤ text.length) (h : Parser.item (.atOffset text b) = .matched v after) :
    ∃ e, after = .atOffset text e ∧ ItemAt text (b, e) (v, Text.lineAt text b) := by
  obtain ⟨n, hn, rfl, -, hcols, hpos⟩ := Parser.item_ensures _ _ _ h
  rw [Cursor.atOffset_rest, List.length_drop] at hn
  have hafter : (Cursor.atOffset text b).advance n = .atOffset text (b + n) :=
    Cursor.atOffset_advance (by omega)
  refine ⟨b + n, hafter, ?_, ?_, ?_, rfl, ?_⟩
  · show b < b + n
    omega
  · show b + n ≤ text.length
    omega
  · rw [← hafter]
    exact h
  · intro i hi
    obtain ⟨hcol, hops⟩ := hcols i hi
    refine ⟨hcol, fun placed hp => ?_⟩
    obtain ⟨k, hk, hat, after, hop⟩ := hops placed hp
    rw [Cursor.atOffset_advance (by omega)] at hat hop
    exact ⟨b + k, by simp, by simpa using hk, hat, after, hop⟩

/-- **One item after the other**: from a true place on, the items lie at places with gaps between
them. -/
theorem read_itemsAt {text : List Char} {k : Nat} {p : Program} (hk : k ≤ text.length)
    (h : read (.atOffset text k) = .ok p) :
    ∃ places, List.Forall₂ (ItemAt text) places p.items ∧ GapsFrom text k places := by
  -- induction on what is left to read
  induction hlen : text.length - k using Nat.strongRecOn generalizing k p with
  | _ m ih =>
    have hle := Lexeme.blankLength_le false (text.drop k)
    have hgap := Lexeme.isGap_blankLength (text.drop k)
    rw [List.length_drop] at hle
    rw [List.drop_drop] at hgap
    rw [read_eq (Cursor.atOffset_past hk), skipBlanks_atOffset hk] at h
    split at h
    · rename_i hend
      cases h
      rw [Cursor.atEnd, List.isEmpty_iff, Cursor.atOffset_rest] at hend
      rw [hend, List.take_of_length_le] at hgap
      · exact ⟨[], .nil, hk, hgap⟩
      · have := congrArg List.length hend
        rw [List.length_drop, List.length_nil] at this
        rw [List.length_drop]
        omega
    · split at h
      · rename_i v after hm
        obtain ⟨e, rfl, hat⟩ := itemAt_of_matched (by omega) hm
        cases hr : read (.atOffset text e) with
        | error fault => rw [hr] at h; cases h
        | ok q =>
          rw [hr] at h
          cases h
          have h1 : k + Lexeme.blankLength false (text.drop k) < e := hat.nonempty
          have h2 : e ≤ text.length := hat.within
          obtain ⟨places, hall, hgaps⟩ := ih (text.length - e) (by omega) h2 hr rfl
          refine ⟨_ :: places, .cons hat hall, ?_, ?_, hgaps⟩
          · show k ≤ k + _
            omega
          · rw [Nat.add_sub_cancel_left]
            exact hgap
      · cases h
      · cases h

theorem exists_itemAt {text : List Char} {places : List (Nat × Nat)} {entries : List (Item × Int)}
    (h : List.Forall₂ (ItemAt text) places entries) :
    ∀ entry ∈ entries, ∃ place, ItemAt text place entry := by
  induction h with
  | nil => simp
  | @cons place entry places entries hat _ ih =>
    intro x hx
    rcases List.mem_cons.1 hx with rfl | hx
    · exact ⟨place, hat⟩
    · exact ih x hx

/-- The lines of items at places in order do not decrease. -/
theorem lines_mono {text : List Char} {k : Nat} {places : List (Nat × Nat)}
    {entries : List (Item × Int)} (h : List.Forall₂ (ItemAt text) places entries)
    (hg : GapsFrom text k places) :
    (∀ entry ∈ entries, Text.lineAt text k ≤ entry.2) ∧
      (entries.map (·.2)).Pairwise (· ≤ ·) := by
  induction h generalizing k with
  | nil => simp
  | @cons place entry places entries hat _ ih =>
    obtain ⟨hkb, -, hg⟩ := hg
    obtain ⟨hle, hpair⟩ := ih hg
    have hbe : Text.lineAt text place.1 ≤ Text.lineAt text place.2 :=
      Text.lineAt_mono text (Nat.le_of_lt hat.nonempty)
    have hkb' : Text.lineAt text k ≤ Text.lineAt text place.1 := Text.lineAt_mono text hkb
    constructor
    · intro x hx
      rcases List.mem_cons.1 hx with rfl | hx
      · rw [hat.line]
        exact hkb'
      · have := hle x hx
        omega
    · rw [List.map_cons, List.pairwise_cons]
      refine ⟨fun l hl => ?_, hpair⟩
      obtain ⟨x, hx, rfl⟩ := List.mem_map.1 hl
      have := hle x hx
      rw [hat.line]
      omega

/-! ## Whole texts -/

/-- **The source map.** The items of a text lie at places in order, with their true lines and
columns, and all the rest of the text is blank. -/
theorem read_sourceMap {text : List Char} {p : Program} (h : read (.start text) = .ok p) :
    ∃ places : List (Nat × Nat), List.Forall₂ (ItemAt text) places p.items ∧
      GapsFrom text 0 places ∧ (p.items.map (·.2)).Pairwise (· ≤ ·) := by
  rw [Cursor.start_eq_atOffset] at h
  obtain ⟨places, hall, hgaps⟩ := read_itemsAt (Nat.zero_le _) h
  exact ⟨places, hall, hgaps, (lines_mono hall hgaps).2⟩

/-- The source map of a text with a comment, a carriage return and a displacement. -/
theorem read_sourceMap_load :
    ∃ p : Program, p.items.length = 3 ∧
      read (.start "main: # go\n  lw $t0, -4($sp)\r\n.word 3:2, x+4".toList) = .ok p ∧
      ∃ places : List (Nat × Nat),
        List.Forall₂ (ItemAt "main: # go\n  lw $t0, -4($sp)\r\n.word 3:2, x+4".toList) places
          p.items ∧
        GapsFrom "main: # go\n  lw $t0, -4($sp)\r\n.word 3:2, x+4".toList 0 places ∧
        (p.items.map (·.2)).Pairwise (· ≤ ·) := by
  have h : (read (.start "main: # go\n  lw $t0, -4($sp)\r\n.word 3:2, x+4".toList)).toOption =
      some { items :=
        [(.label "main", 1),
         (.instruction { mnemonic := "lw", col := 3, operands :=
            [(.register ⟨8⟩, 6), (.memory ⟨29⟩ (some (.immediate (-4))), 11)] }, 2),
         (.directive { name := ".word", args :=
            [.repeated 3 2, .symbol { name := "x", offset := 4 }] }, 3)] } := by
    decide +kernel
  exact ⟨_, rfl, eq_ok_of_toOption h, read_sourceMap (eq_ok_of_toOption h)⟩

/-! ## Well-formed programs -/

theorem ofText_eq_ok {text : List Char} {file : Option String} {tabWidth : Int} {p : Program}
    (h : ofText text file tabWidth = .ok p) :
    ∃ expanded, Text.expandTabs tabWidth text = .ok expanded ∧ read (.start expanded) = .ok p := by
  unfold ofText at h
  cases he : Text.expandTabs tabWidth text with
  | error fault => rw [he] at h; cases h
  | ok expanded =>
    rw [he] at h
    refine ⟨expanded, rfl, ?_⟩
    cases hr : read (.start expanded) with
    | error fault => simp [hr, bind, Except.bind] at h
    | ok q => simp_all [bind, Except.bind, pure, Except.pure]

/-- **Every item of a program is well formed**, and the width of each of its immediates is the
first that the immediate fits. -/
theorem ofText_wellFormed {text : List Char} {file : Option String} {tabWidth : Int} {p : Program}
    (h : ofText text file tabWidth = .ok p) :
    ∀ entry ∈ p.items, entry.1.WellFormed ∧
      ∀ value ∈ entry.1.immediates, (ImmediateWidth.ofValue value).IsFirst value := by
  obtain ⟨expanded, -, hread⟩ := ofText_eq_ok h
  rw [Cursor.start_eq_atOffset] at hread
  obtain ⟨places, hall, -⟩ := read_itemsAt (Nat.zero_le _) hread
  intro entry hentry
  obtain ⟨place, hat⟩ := exists_itemAt hall entry hentry
  obtain ⟨n, -, -, hwf, -⟩ := Parser.item_ensures _ _ _ hat.reads
  exact ⟨hwf, fun value hv => ImmediateWidth.ofValue_isFirst (hwf.immediates value hv)⟩

/-- Immediates at both ends of their range, a character, and a repetition. -/
theorem ofText_wellFormed_bounds :
    ∃ p : Program, p.items.length = 2 ∧
      ofText "li $t0, -0x80000000, 4294967295($t1), '\\n'\n.byte -128:3".toList none 8 = .ok p ∧
      ∀ entry ∈ p.items, entry.1.WellFormed ∧
        ∀ value ∈ entry.1.immediates, (ImmediateWidth.ofValue value).IsFirst value := by
  have h : (ofText "li $t0, -0x80000000, 4294967295($t1), '\\n'\n.byte -128:3".toList none
      8).toOption = some { items :=
        [(.instruction { mnemonic := "li", col := 1, operands :=
            [(.register ⟨8⟩, 4), (.immediate (-2147483648), 9),
             (.memory ⟨9⟩ (some (.immediate 4294967295)), 22), (.character "\n", 39)] }, 1),
         (.directive { name := ".byte", args := [.repeated (-128) 3] }, 2)] } := by
    decide +kernel
  exact ⟨_, rfl, eq_ok_of_toOption h, ofText_wellFormed (eq_ok_of_toOption h)⟩

end Program

end MipsSource
