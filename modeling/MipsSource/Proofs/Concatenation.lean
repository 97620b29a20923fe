import MipsSource.Proofs.EditorColumns
import MipsSource.Proofs.LineLocal
import MipsSource.Proofs.ProgramLoop

/-!
# Programs in pieces

A text that ends with a newline can be followed by another one: the second is read as if it stood
alone, some lines further down.

* `read_shift`: the same text further down gives the same items and the same error further down.
* `read_append`: reading goes through the first text as if nothing followed.
* `ofText_append`: so reading a text in two pieces, cut after a newline, is reading both.
-/

set_option autoImplicit false

namespace MipsSource

/-! ## Tab stops in pieces -/

namespace Text

/-- A newline starts the tab stops anew. -/
theorem expandTabsFrom_append_newline (width column : Nat) (l u : List Char) :
    expandTabsFrom width column (l ++ '\n' :: u) =
      expandTabsFrom width column l ++ '\n' :: expandTabsFrom width 0 u := by
  rw [expandTabsFrom_append, expandTabsFrom, if_neg (by decide), if_pos (.inl rfl)]

/-- The first line of some characters does not depend on what follows a line end. -/
theorem firstLine_take_append {u : List Char} (hu : Lexeme.AtLineEnd u) (n : Nat) (l : List Char) :
    firstLine ((l ++ u).take n) = firstLine (l.take n) := by
  induction l generalizing n with
  | nil =>
    cases n with
    | zero => rfl
    | succ n =>
      cases u with
      | nil => rfl
      | cons c u =>
        obtain rfl := hu c rfl
        rfl
  | cons c l ih =>
    cases n with
    | zero => rfl
    | succ n =>
      simp only [List.cons_append, List.take_succ_cons, firstLine, List.takeWhile_cons]
      rw [← firstLine, ← firstLine, ih]

end Text

namespace Program

/-! ## Further down -/

/-- The items of a program `k` lines further down. -/
def shiftLines (k : Int) (p : Program) : Program where
  items := p.items.map fun entry => (entry.1, entry.2 + k)

/-- The items of two programs one after the other. -/
def append (p q : Program) : Program where
  items := p.items ++ q.items

theorem peek_previewLength (c : Cursor) : c.peek Cursor.previewLength = c.rest.take 16 := by
  have hlen : Cursor.previewLength = 16 := rfl
  have hstop : ¬ (c.offset : Int) + Cursor.previewLength < 0 := by omega
  have htake : ((c.offset : Int) + Cursor.previewLength - c.offset).toNat = 16 := by omega
  simp only [Cursor.peek, hstop, if_false, htake]

section
variable {t t' : List Char} {k : Int} {m : Nat}

/-- The error where no item can be read quotes its line only. -/
theorem expectedItem_beside (ht : Lexeme.AtLineEnd t) (ht' : Lexeme.AtLineEnd t') {c d : Cursor}
    (h : Beside t t' k m c d) :
    .source (expectedItem d) = (Fault.source (expectedItem c)).shiftLine k := by
  obtain ⟨l, hc, hd⟩ := h.rest
  simp only [expectedItem, Fault.shiftLine, peek_previewLength, hc, hd,
    Text.firstLine_take_append ht, Text.firstLine_take_append ht', h.line, h.col, Option.map_some]

/-- **One round in two runs**: both end with the same error, or read the same item and go on
side by side. -/
theorem read_round (ht : Lexeme.AtLineEnd t) (ht' : Lexeme.AtLineEnd t') {c d : Cursor}
    (hc : c.past = 0) (hd : d.past = 0) (h : Beside t t' k m c.skipBlanks d.skipBlanks)
    (hcr : c.skipBlanks.rest ≠ []) (hdr : d.skipBlanks.rest ≠ []) :
    (∃ f, read c = .error f ∧ read d = .error (f.shiftLine k)) ∨
      ∃ v n, 0 < n ∧ n ≤ c.skipBlanks.rest.length ∧
        Beside t t' k m (c.skipBlanks.advance n) (d.skipBlanks.advance n) ∧
        read c = (read (c.skipBlanks.advance n)).map (fun p =>
          { items := (v, c.skipBlanks.line) :: p.items }) ∧
        read d = (read (d.skipBlanks.advance n)).map (fun p =>
          { items := (v, c.skipBlanks.line + k) :: p.items }) := by
  have hitem := Parser.item_respects (k := k) (m := m) ht ht'
  rcases hitem.reply_cases h with ⟨hi, hj⟩ | ⟨f, g, hi, hj, hfault⟩ |
    ⟨v, after, after', hi, hj, hat⟩
  · refine .inl ⟨_, read_unmatched hc hcr hi, ?_⟩
    rw [read_unmatched hd hdr hj, expectedItem_beside ht ht' h]
  · refine .inl ⟨f, read_failed hc hi, ?_⟩
    rw [read_failed hd hj, hfault]
  · obtain ⟨n, hn, rfl, -, -, hpos⟩ := Parser.item_ensures _ _ _ hi
    obtain ⟨n', hn', rfl, -⟩ := Parser.item_ensures _ _ _ hj
    -- both runs have read as much, by their offsets
    have hoff := hat.offset
    rw [Cursor.advance_offset (Cursor.skipBlanks_past hd) hn',
      Cursor.advance_offset (Cursor.skipBlanks_past hc) hn, h.offset] at hoff
    obtain rfl : n' = n := by omega
    refine .inr ⟨v, n', hpos, hn, hat, read_matched hc hi, ?_⟩
    rw [read_matched hd hj, h.line]

end

/-- **The same text further down** gives the same items and the same error further down. -/
theorem read_shift {k : Int} {m : Nat} {c d : Cursor} (h : Beside [] [] k m c d) :
    read d =
      match read c with
      | .ok p => .ok (p.shiftLines k)
      | .error f => .error (f.shiftLine k) := by
  induction hlen : c.rest.length using Nat.strongRecOn generalizing c d with
  | _ len ih =>
    obtain ⟨l, hc, hd⟩ := h.rest
    have hskip : Beside [] [] k m c.skipBlanks d.skipBlanks := by
      have hle := Lexeme.blankLength_le false l
      rw [Cursor.skipBlanks, Cursor.skipBlanks, hc, hd, List.append_nil]
      exact h.advance hc hd hle
    obtain ⟨l', hc', hd'⟩ := hskip.rest
    rw [List.append_nil] at hc' hd'
    by_cases hend : l' = []
    · subst hend
      rw [read_atEnd h.pastLeft hc', read_atEnd h.pastRight hd']
      rfl
    · have hround := read_round Lexeme.atLineEnd_nil Lexeme.atLineEnd_nil h.pastLeft h.pastRight
        hskip (by rw [hc']; exact hend) (by rw [hd']; exact hend)
      rcases hround with ⟨f, h1, h2⟩ | ⟨v, n, hpos, hn, hnext, h1, h2⟩
      · rw [h1, h2]
      · have hlt : (c.skipBlanks.advance n).rest.length < len :=
          hlen ▸ Cursor.skipBlanks_advance_lt hpos hn
        rw [h1, h2, ih _ hlt hnext rfl]
        cases read (c.skipBlanks.advance n) with
        | ok p => rfl
        | error f => rfl

/-! ## One text after the other -/

/-- What is read depends on the place after the blanks only. -/
theorem read_congr {c d : Cursor} (hc : c.past = 0) (hd : d.past = 0)
    (h : c.skipBlanks = d.skipBlanks) : read c = read d := by
  rw [read_eq hc, read_eq hd, h]

/-- **Reading up to a newline** is not changed by what follows it: an error stays, and items are
followed by those after the newline. -/
theorem read_append {u l : List Char} {c d : Cursor} (h : Beside ['\n'] ('\n' :: u) 0 0 c d)
    (hc : c.rest = l ++ ['\n']) (hd : d.rest = l ++ '\n' :: u) :
    read d =
      match read c with
      | .ok p => (read (d.advance (l.length + 1))).map p.append
      | .error f => .error f := by
  induction hlen : l.length using Nat.strongRecOn generalizing l c d with
  | _ len ih =>
    subst hlen
    rcases Lexeme.blankLength_append_newline false l u with ⟨hle, heq⟩ | ⟨hall, hmore⟩
    · -- there is more on the way to the newline
      have hskip : Beside ['\n'] ('\n' :: u) 0 0 c.skipBlanks d.skipBlanks := by
        rw [Cursor.skipBlanks, Cursor.skipBlanks, hc, hd, heq]
        exact h.advance hc hd hle
      obtain ⟨l₁, hc₁, hd₁⟩ := hskip.rest
      have hround := read_round (Lexeme.atLineEnd_newline []) (Lexeme.atLineEnd_newline u)
        h.pastLeft h.pastRight hskip (by rw [hc₁]; simp) (by rw [hd₁]; simp)
      rcases hround with ⟨f, h1, h2⟩ | ⟨v, n, hpos, -, hnext, h1, h2⟩
      · rw [h1, h2, Fault.shiftLine_zero]
      · obtain ⟨l₂, hc₂, hd₂⟩ := hnext.rest
        have hlen : l₂.length + n + Lexeme.blankLength false d.rest = l.length := by
          have := congrArg List.length hd₂
          simp only [Cursor.advance_rest, Cursor.skipBlanks_rest, List.length_drop,
            List.length_append, List.length_cons, hd] at this ⊢
          omega
        have hplace : (d.skipBlanks.advance n).advance (l₂.length + 1) =
            d.advance (l.length + 1) := by
          rw [Cursor.skipBlanks, Cursor.advance_advance, Cursor.advance_advance]
          congr 1
          omega
        rw [h1, h2, ih l₂.length (by omega) hnext hc₂ hd₂ rfl, hplace, Int.add_zero]
        cases read (c.skipBlanks.advance n) with
        | error f => rfl
        | ok p => cases read (d.advance (l.length + 1)) <;> rfl
    · -- blanks only, also after the newline
      have hend : c.skipBlanks.rest = [] := by
        rw [Cursor.skipBlanks_rest, hc, hall]
        exact List.drop_eq_nil_of_le (by simp)
      have hsame : d.skipBlanks = (d.advance (l.length + 1)).skipBlanks := by
        have hrest : (d.advance (l.length + 1)).rest = u := by
          rw [Cursor.advance_rest, hd]
          simp
        rw [Cursor.skipBlanks, Cursor.skipBlanks, hrest, Cursor.advance_advance, hd, hmore]
      have hpast := Cursor.advance_past h.pastRight (l.length + 1)
      rw [read_atEnd h.pastLeft hend, read_congr h.pastRight hpast hsame]
      cases read (d.advance (l.length + 1)) <;> rfl

/-- The text after a newline, read where it stands and read alone. -/
theorem beside_after_newline (l u : List Char) :
    Beside [] [] ((l ++ ['\n']).count '\n' : Nat) (l.length + 1) (.start u)
      (.atOffset (l ++ '\n' :: u) (l.length + 1)) := by
  have htake : (l ++ '\n' :: u).take (l.length + 1) = l ++ ['\n'] := by
    simp [List.take_append, List.take_of_length_le]
  refine ⟨⟨u, by simp [Cursor.start], by simp⟩, rfl, Cursor.atOffset_past (by simp), ?_, ?_, ?_⟩
  · rw [Cursor.atOffset_line, Text.lineAt, htake]
    rfl
  · rw [Cursor.atOffset_col, Text.colAt, htake]
    simp [Cursor.start]
  · simp [Cursor.start]

/-- **The law for a text cut after a newline**, before tabs and files come in. -/
theorem read_start_append (l u : List Char) :
    read (.start (l ++ '\n' :: u)) =
      match read (.start (l ++ ['\n'])) with
      | .error f => .error f
      | .ok p =>
        match read (.start u) with
        | .ok q => .ok (p.append (q.shiftLines ((l ++ ['\n']).count '\n' : Nat)))
        | .error f => .error (f.shiftLine ((l ++ ['\n']).count '\n' : Nat)) := by
  have hbeside : Beside ['\n'] ('\n' :: u) 0 0 (.start (l ++ ['\n'])) (.start (l ++ '\n' :: u)) :=
    ⟨⟨l, rfl, rfl⟩, rfl, rfl, rfl, rfl, rfl⟩
  rw [read_append hbeside rfl rfl, Cursor.start_advance (by simp),
    read_shift (beside_after_newline l u)]
  cases read (.start (l ++ ['\n'])) with
  | error f => rfl
  | ok p => cases read (.start u) <;> rfl

theorem shiftLines_zero (p : Program) : p.shiftLines 0 = p := by
  simp [shiftLines]

/-- **Reading two texts one after the other.** A text that is empty or ends with a newline can be
read alone: its errors stay, and its items come before those of what follows, which is read as if it
stood alone, its lines counted on. -/
theorem ofText_append {a : List Char} (ha : a = [] ∨ a.getLast? = some '\n') (b : List Char)
    (file : Option String) (w : Int) :
    ofText (a ++ b) file w =
      match ofText a file w with
      | .error f => .error f
      | .ok p =>
        match ofText b file w with
        | .ok q => .ok (p.append (q.shiftLines (a.count '\n' : Nat)))
        | .error f => .error (f.shiftLine (a.count '\n' : Nat)) := by
  by_cases hw : Text.tabWidthOk w = true
  · rcases ha with rfl | ha
    · have hnil : read (.start []) = .ok { items := [] } := read_atEnd rfl rfl
      have hempty : ofText [] file w = .ok { items := [] } := by
        rw [ofText_of_tabWidth hw, Text.expandTabsFrom, hnil]
      rw [hempty, List.nil_append]
      cases ofText b file w with
      | ok q => simp [append, shiftLines_zero]
      | error f => simp
    · obtain ⟨l, rfl⟩ : ∃ l, a = l ++ ['\n'] := List.getLast?_eq_some_iff.1 ha
      have hcount := Text.count_newline_expandTabsFrom w.toNat 0 (l ++ ['\n'])
      rw [Text.expandTabsFrom_append_newline] at hcount
      simp only [ofText_of_tabWidth hw, List.append_assoc, List.singleton_append,
        Text.expandTabsFrom_append_newline]
      rw [read_start_append _ (Text.expandTabsFrom w.toNat 0 b), ← hcount, Text.expandTabsFrom]
      cases read (.start (Text.expandTabsFrom w.toNat 0 l ++ ['\n'])) with
      | error f => rfl
      | ok p =>
        cases read (.start (Text.expandTabsFrom w.toNat 0 b)) with
        | ok q => rfl
        | error f => simp only [Fault.shiftLine_locate_file]
  · have hover : ∀ text, ofText text file w = .error .tabWidthOverflow := by
      intro text
      rw [ofText, Text.expandTabs, if_neg hw]
      rfl
    rw [hover, hover]

/-- A label and a comment, followed by an instruction after a tab. -/
theorem ofText_append_instruction :
    "main: # go\n\n".toList.getLast? = some '\n' ∧
      ofText ("main: # go\n\n".toList ++ "\tj main".toList) none 4 =
        .ok { items :=
          [(.label "main", 1),
           (.instruction { mnemonic := "j", col := 5, operands :=
              [(.symbol { name := "main", offset := 0 }, 7)] }, 3)] } := by
  have hlast : "main: # go\n\n".toList.getLast? = some '\n' := by decide
  have ha : (ofText "main: # go\n\n".toList none 4).toOption =
      some { items := [(.label "main", 1)] } := by
    decide +kernel
  have hb : (ofText "\tj main".toList none 4).toOption =
      some { items := [(.instruction { mnemonic := "j", col := 5, operands :=
        [(.symbol { name := "main", offset := 0 }, 7)] }, 1)] } := by
    decide +kernel
  refine ⟨hlast, ?_⟩
  rw [ofText_append (.inr hlast), eq_ok_of_toOption ha, eq_ok_of_toOption hb]
  rfl

end Program

end MipsSource
