import MipsSource.Proofs.ItemText
import MipsSource.Proofs.ProgramLoop

/-!
# Reading back programs

Items written one on a line are read back in order, each on its own line.

* `Program.read_line`: one line is one round of reading.
* `Program.ofText_render`: every list of items is read back from its text.
-/

set_option autoImplicit false

namespace MipsSource

theorem Text.expandTabsFrom_of_no_tab {text : List Char} (h : '\t' ∉ text) (width column : Nat) :
    expandTabsFrom width column text = text := by
  induction text generalizing column with
  | nil => rfl
  | cons c text ih =>
    simp only [List.mem_cons, not_or] at h
    rw [expandTabsFrom, if_neg fun hc => h.1 hc.symm]
    split
    · rw [ih h.2]
    · rw [ih h.2]

/-- Before an item there is nothing to skip but the newline that ends the line before. -/
theorem IsInline.blankLength {text : List Char} (h : IsInline text) {gap : List Char}
    (hgap : gap = [] ∨ gap = ['\n']) (tail : List Char) :
    Lexeme.blankLength false (gap ++ (text ++ tail)) = gap.length := by
  obtain ⟨c, rest, rfl, hc⟩ := h.head
  have hn : c ≠ '\n' := fun he => h.no_newline (by simp [he])
  have hzero : Lexeme.blankLength false (c :: rest ++ tail) = 0 := by
    refine Lexeme.blankLength_eq_zero fun d hd => ?_
    cases hd
    simp_all
  rcases hgap with rfl | rfl
  · exact hzero
  · rw [List.singleton_append, Lexeme.blankLength_newline, hzero]
    rfl

namespace Program

/-- **One line is one round**: its item is read, and reading goes on at the end of the line. -/
theorem read_line {i : Item} (h : i.WellFormed) (hw : i.Writable) {gap tail : List Char}
    (hgap : gap = [] ∨ gap = ['\n']) (ht : Lexeme.AtLineEnd tail) {c : Cursor} (hc : c.past = 0)
    (hr : c.rest = gap ++ (written i.render ++ tail)) :
    ∃ v after, v.eraseColumns = i.eraseColumns ∧ after.past = 0 ∧ after.rest = tail ∧
      after.line = c.line + (gap.length : Nat) ∧
      read c = (read after).map fun p => { items := (v, after.line) :: p.items } := by
  have hback := Parser.item_readsBack h hw
  have hskip : c.skipBlanks = c.advance gap.length := by
    rw [Cursor.skipBlanks, hr, hback.inline.blankLength hgap]
  have hpast := Cursor.advance_past hc gap.length
  have hrest := Parser.advance_rest_of_append hr
  obtain ⟨v, hv, hm⟩ := hback.reads tail ht _ hpast hrest
  rw [← hskip] at hm hpast hrest
  have hline : c.skipBlanks.line = c.line + (gap.length : Nat) := by
    rw [hskip, Cursor.advance_line hc, hr, List.take_left]
    rcases hgap with rfl | rfl <;> rfl
  have hafter : (c.skipBlanks.advance (written i.render).length).line = c.skipBlanks.line := by
    rw [Cursor.advance_line hpast, hrest, List.take_left,
      List.count_eq_zero_of_not_mem hback.inline.no_newline]
    simp
  refine ⟨v, _, hv, Cursor.advance_past hpast _, Parser.advance_rest_of_append hrest,
    hafter.trans hline, ?_⟩
  rw [read_matched hc hm, hafter]

/-- Items one on a line are read back in order, each with its line. -/
theorem read_lines {i : Item} {items : List Item}
    (h : ∀ j ∈ i :: items, j.WellFormed ∧ j.Writable) {gap : List Char}
    (hgap : gap = [] ∨ gap = ['\n']) {c : Cursor} (hc : c.past = 0)
    (hr : c.rest = gap ++ (written i.render ++ items.flatMap fun j => ['\n'] ++ written j.render))
    {k : Nat} (hk : c.line + (gap.length : Nat) = k) :
    ∃ p, read c = .ok p ∧ p.items.map (fun entry => (entry.1.eraseColumns, entry.2)) =
      ((i :: items).zipIdx k).map fun entry => (entry.1.eraseColumns, (entry.2 : Int)) := by
  induction items generalizing i gap c k with
  | nil =>
    obtain ⟨hi, hw⟩ := h i List.mem_cons_self
    obtain ⟨v, after, hv, hpast, hrest, hline, hread⟩ :=
      read_line hi hw hgap Lexeme.atLineEnd_nil hc hr
    have hend : after.skipBlanks.rest = [] := by
      rw [Cursor.skipBlanks_rest, hrest]
      rfl
    refine ⟨{ items := [(v, after.line)] }, by rw [hread, read_atEnd hpast hend]; rfl, ?_⟩
    simp [hv, hline, hk]
  | cons j items ih =>
    obtain ⟨hi, hw⟩ := h i List.mem_cons_self
    rw [List.flatMap_cons, List.append_assoc] at hr
    obtain ⟨v, after, hv, hpast, hrest, hline, hread⟩ :=
      read_line hi hw hgap (Lexeme.atLineEnd_newline _) hc hr
    rw [hk] at hline
    -- the next item stands after the newline that ends this line
    have hnext : after.line + (['\n'].length : Nat) = (k + 1 : Nat) := by
      rw [hline]
      rfl
    obtain ⟨p, hp, hitems⟩ :=
      ih (fun x hx => h x (List.mem_cons_of_mem i hx)) (.inr rfl) hpast hrest hnext
    refine ⟨{ items := (v, after.line) :: p.items }, by rw [hread, hp]; rfl, ?_⟩
    rw [List.map_cons, hitems, hv, hline, List.zipIdx_cons (a := i), List.map_cons]

theorem ofText_of_no_tab {text : List Char} (h : '\t' ∉ text) {p : Program}
    (hread : read (.start text) = .ok p) (file : Option String) :
    ofText text file Text.defaultTabWidth = .ok p := by
  have hwidth : Text.tabWidthOk Text.defaultTabWidth = true := by decide
  rw [ofText_of_tabWidth hwidth, Text.expandTabsFrom_of_no_tab h, hread]

/-- **Every list of items is read back from its text**: well-formed items that can be written, each
on a line of its own, are read in order on the lines from one on, and differ in their columns
only. -/
theorem ofText_render {items : List Item} (h : ∀ i ∈ items, i.WellFormed ∧ i.Writable)
    (file : Option String) :
    ∃ texts p, items.mapM Item.render = .ok texts ∧
      ofText ("\n".intercalate texts).toList file Text.defaultTabWidth = .ok p ∧
      p.items.map (fun entry => (entry.1.eraseColumns, entry.2)) =
        (items.zipIdx 1).map fun entry => (entry.1.eraseColumns, (entry.2 : Int)) := by
  have hback : ∀ i ∈ items, Parser.item.ReadsBack i.render Lexeme.AtLineEnd fun j =>
      j.eraseColumns = i.eraseColumns := fun i hi => Parser.item_readsBack (h i hi).1 (h i hi).2
  have hmap := Parser.mapM_render fun i hi => (hback i hi).ok
  cases items with
  | nil =>
    have hread : read (.start []) = .ok { items := [] } := read_atEnd rfl rfl
    exact ⟨[], _, hmap, ofText_of_no_tab (by simp) hread file, rfl⟩
  | cons i items =>
    have htext : ("\n".intercalate ((i :: items).map fun j =>
        String.ofList (written j.render))).toList =
          written i.render ++ items.flatMap fun j => ['\n'] ++ written j.render := by
      rw [List.map_cons, Parser.toList_intercalate_cons, List.flatMap_map]
      simp
    have htab : '\t' ∉ written i.render ++ items.flatMap fun j => ['\n'] ++ written j.render := by
      simp only [List.mem_append, List.mem_flatMap, not_or, not_exists, not_and]
      refine ⟨(hback i List.mem_cons_self).inline.no_tab, fun j hj => ⟨by decide, ?_⟩⟩
      exact (hback j (List.mem_cons_of_mem i hj)).inline.no_tab
    obtain ⟨p, hread, hitems⟩ := read_lines h (.inl rfl) (Cursor.start_past _) rfl (k := 1) rfl
    refine ⟨_, p, hmap, ?_, hitems⟩
    rw [htext]
    exact ofText_of_no_tab htab hread file

/-- A label, data with a repetition and an offset, and an instruction with a quoted quotation
mark. -/
theorem ofText_render_load :
    ∃ p : Program,
      ofText "main:\n.word -5:3, x-4\nlw $t0, -4($sp), '\\''".toList none Text.defaultTabWidth =
        .ok p ∧
      p.items.map (fun entry => (entry.1.eraseColumns, entry.2)) =
        [(.label "main", 1),
         (.directive { name := ".word", args :=
            [.repeated (-5) 3, .symbol { name := "x", offset := -4 }] }, 2),
         (.instruction { mnemonic := "lw", col := 0, operands :=
            [(.register ⟨8⟩, 0), (.memory ⟨29⟩ (some (.immediate (-4))), 0),
             (.character "'", 0)] }, 3)] := by
  have hmem : (".word", -2147483648, 4294967295, true) ∈ Directive.integerLists := by decide
  have hword : Directive.WellFormed { name := ".word", args :=
      [.repeated (-5) 3, .symbol { name := "x", offset := -4 }] } :=
    .integers hmem (by simp) (by decide +kernel)
  have hall : ∀ i ∈ [Item.label "main",
      .directive { name := ".word", args :=
        [.repeated (-5) 3, .symbol { name := "x", offset := -4 }] },
      .instruction { mnemonic := "lw", col := 0, operands :=
        [(.register ⟨8⟩, 0), (.memory ⟨29⟩ (some (.immediate (-4))), 0),
         (.character "'", 0)] }], i.WellFormed ∧ i.Writable := by
    intro i hi
    simp only [List.mem_cons, List.not_mem_nil, or_false] at hi
    rcases hi with rfl | rfl | rfl
    · exact ⟨show IsName "main" by decide +kernel, by decide +kernel⟩
    · exact ⟨hword, by decide +kernel⟩
    · exact ⟨⟨by decide +kernel, by decide +kernel⟩, by decide +kernel⟩
  obtain ⟨texts, p, hmap, hread, hitems⟩ := ofText_render hall none
  have heval := congrArg Except.toOption hmap
  have htexts : texts = ["main:", ".word -5:3, x-4", "lw $t0, -4($sp), '\\''"] :=
    Option.some.inj (heval.symm.trans (by decide +kernel))
  subst htexts
  exact ⟨p, hread, hitems⟩

end Program

end MipsSource
