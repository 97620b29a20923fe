import MipsSource.Proofs.Blanks
import MipsSource.Proofs.ItemSpec

/-!
# The loop over the items

`Program.read` repeats a parser and looks at what is left. `read_eq` says what that amounts to: skip
the blanks, stop at the end of the text, read an item, go on after it. Everything about whole
programs goes by induction on what is left to read, one item at a time:

* `read_atEnd`, `read_matched`, `read_unmatched`, `read_failed`: the four ways a round can end.
* `read_induction`: what holds of a program that is read, from the last item to the first.
* `ofText_of_tabWidth`: reading a text is reading it from its start, without tabs.
-/

set_option autoImplicit false

namespace MipsSource

/-- A result that is there, from the test of it that can be evaluated. -/
theorem eq_ok_of_toOption {α : Type} {r : Except Fault α} {a : α} (h : r.toOption = some a) :
    r = .ok a := by
  cases r with
  | ok b => cases h; rfl
  | error fault => cases h

/-! ## One round -/

namespace Cursor

/-- After blanks and a character at least, less is left to read. -/
theorem skipBlanks_advance_lt {c : Cursor} {n : Nat} (hpos : 0 < n)
    (hn : n ≤ c.skipBlanks.rest.length) :
    (c.skipBlanks.advance n).rest.length < c.rest.length := by
  rw [advance_rest, List.length_drop]
  rw [skipBlanks_rest, List.length_drop] at hn ⊢
  omega

end Cursor

namespace Parser

theorem blanks_forward : blanks.Forward :=
  Ensures.scan fun c _ _ hs => by
    cases hs
    exact ⟨Lexeme.blankLength_le false c.rest, trivial⟩

theorem placedItem_apply (c : Cursor) :
    placedItem c =
      match item c.skipBlanks with
      | .matched v after => .matched (v, c.skipBlanks.line) after
      | .unmatched => .unmatched
      | .failed fault => .failed fault := by
  have hblanks : blanks c = .matched () c.skipBlanks := rfl
  have hplace : position c.skipBlanks = .matched c.skipBlanks c.skipBlanks := rfl
  rw [placedItem, bind_matched hblanks, bind_matched hplace, bind_apply]
  cases item c.skipBlanks <;> rfl

theorem placedItem_forward : placedItem.Forward := by
  have hitem : ∀ start : Cursor,
      (item >>= fun value => pure (value, start.line) : Parser (Item × Int)).Forward := fun _ =>
    .bind item_ensures (fun _ => .pure _) fun _ _ _ _ _ _ _ => trivial
  have hplaced : (position >>= fun start => item >>= fun value =>
      pure (value, start.line) : Parser (Item × Int)).Forward :=
    .bind .position hitem fun _ _ _ _ _ _ _ => trivial
  exact .bind blanks_forward (fun _ => hplaced) fun _ _ _ _ _ _ _ => trivial

theorem item_of_nil {c : Cursor} (h : c.rest = []) : item c = .unmatched := by
  simp [item, choice, orElse, label, directive, instruction, identifier, word, scan, position,
    map_apply, bind_apply, noMatch, h, Lexeme.label?, Lexeme.directiveName?, Lexeme.identifier?]

end Parser

namespace Program

variable {c : Cursor}

theorem read_of_collect {items : List (Item × Int)} {after : Cursor}
    (h : Parser.collect Parser.placedItem c = .ok (items, after)) :
    read c = if after.skipBlanks.atEnd then .ok { items := items }
      else .error (.source (expectedItem after.skipBlanks)) := by
  rw [read, h]
  rfl

theorem read_of_collect_error {fault : Fault}
    (h : Parser.collect Parser.placedItem c = .error fault) : read c = .error fault := by
  rw [read, h]
  rfl

/-- **The loop over the items.** -/
theorem read_eq (hc : c.past = 0) :
    read c =
      if c.skipBlanks.atEnd then .ok { items := [] }
      else
        match Parser.item c.skipBlanks with
        | .matched v after =>
          (read after).map fun p => { items := (v, c.skipBlanks.line) :: p.items }
        | .unmatched => .error (.source (expectedItem c.skipBlanks))
        | .failed fault => .error fault := by
  have hloop := Parser.collect_eq Parser.placedItem_forward c
  rw [Parser.placedItem_apply] at hloop
  cases hm : Parser.item c.skipBlanks with
  | unmatched =>
    rw [hm] at hloop
    exact read_of_collect hloop
  | failed fault =>
    rw [hm] at hloop
    rw [read_of_collect_error hloop]
    split
    · rename_i hend
      rw [Parser.item_of_nil (List.isEmpty_iff.1 hend)] at hm
      cases hm
    · rfl
  | matched v after =>
    obtain ⟨n, hn, rfl, -, -, hpos⟩ := Parser.item_ensures _ _ _ hm
    have hne : ¬ c.skipBlanks.atEnd = true := by
      intro hend
      rw [Cursor.atEnd, List.isEmpty_iff] at hend
      rw [hend, List.length_nil] at hn
      omega
    have hblank := Lexeme.blankLength_le false c.rest
    have hadv : (c.skipBlanks.advance n).offset ≠ c.offset := by
      rw [Cursor.advance_offset (Cursor.skipBlanks_past hc) hn, Cursor.skipBlanks,
        Cursor.advance_offset hc hblank]
      omega
    rw [hm] at hloop
    simp only [hadv, if_false] at hloop
    simp only [hne, Bool.false_eq_true, if_false]
    cases hr : Parser.collect Parser.placedItem (c.skipBlanks.advance n) with
    | error fault =>
      rw [hr] at hloop
      rw [read_of_collect_error hloop, read_of_collect_error hr]
      rfl
    | ok result =>
      rw [hr] at hloop
      rw [read_of_collect hloop, read_of_collect hr]
      split <;> rfl

theorem read_atEnd (hc : c.past = 0) (h : c.skipBlanks.rest = []) :
    read c = .ok { items := [] } := by
  rw [read_eq hc, if_pos (by rw [Cursor.atEnd, h]; rfl)]

theorem read_matched (hc : c.past = 0) {v : Item} {after : Cursor}
    (h : Parser.item c.skipBlanks = .matched v after) :
    read c = (read after).map fun p => { items := (v, c.skipBlanks.line) :: p.items } := by
  have hne : ¬ c.skipBlanks.atEnd = true := by
    intro hend
    rw [Parser.item_of_nil (List.isEmpty_iff.1 hend)] at h
    cases h
  rw [read_eq hc, if_neg hne, h]

theorem read_unmatched (hc : c.past = 0) (hne : c.skipBlanks.rest ≠ [])
    (h : Parser.item c.skipBlanks = .unmatched) :
    read c = .error (.source (expectedItem c.skipBlanks)) := by
  rw [read_eq hc, if_neg (by rw [Cursor.atEnd, List.isEmpty_iff]; exact hne), h]

theorem read_failed (hc : c.past = 0) {fault : Fault}
    (h : Parser.item c.skipBlanks = .failed fault) : read c = .error fault := by
  have hne : ¬ c.skipBlanks.atEnd = true := by
    intro hend
    rw [Parser.item_of_nil (List.isEmpty_iff.1 hend)] at h
    cases h
  rw [read_eq hc, if_neg hne, h]

/-- **Induction over the items of a program that is read**: from what is known after the first item
to what holds before it. -/
theorem read_induction {motive : Cursor → Program → Prop}
    (atEnd : ∀ c, c.past = 0 → c.skipBlanks.rest = [] → motive c { items := [] })
    (item : ∀ c v after p, c.past = 0 → Parser.item c.skipBlanks = .matched v after →
      read after = .ok p → motive after p →
      motive c { items := (v, c.skipBlanks.line) :: p.items })
    {p : Program} (hc : c.past = 0) (h : read c = .ok p) : motive c p := by
  induction hlen : c.rest.length using Nat.strongRecOn generalizing c p with
  | _ len ih =>
    rw [read_eq hc] at h
    split at h
    · rename_i hend
      cases h
      exact atEnd c hc (List.isEmpty_iff.1 hend)
    · split at h
      · rename_i v after hm
        obtain ⟨n, hn, rfl, -, -, hpos⟩ := Parser.item_ensures _ _ _ hm
        cases hr : read (c.skipBlanks.advance n) with
        | error fault => rw [hr] at h; cases h
        | ok q =>
          rw [hr] at h
          cases h
          have hlt : (c.skipBlanks.advance n).rest.length < len :=
            hlen ▸ Cursor.skipBlanks_advance_lt hpos hn
          have hpast := Cursor.advance_past (Cursor.skipBlanks_past hc) n
          exact item c v _ q hc hm hr (ih _ hlt hpast hr rfl)
      · cases h
      · cases h

/-- A text is read from its start, its tabs expanded. -/
theorem ofText_of_tabWidth {w : Int} (hw : Text.tabWidthOk w = true) (text : List Char)
    (file : Option String) :
    ofText text file w =
      match read (.start (Text.expandTabsFrom w.toNat 0 text)) with
      | .ok p => .ok p
      | .error f => .error (f.locate none none file) := by
  rw [ofText, Text.expandTabs, if_pos hw]
  rfl

end Program

end MipsSource
