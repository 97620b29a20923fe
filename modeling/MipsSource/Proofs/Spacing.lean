import MipsSource.Proofs.CoupledItems
import MipsSource.Proofs.ItemText
import MipsSource.Proofs.ProgramLoop
import MipsSource.Proofs.Squeeze

/-!
# How many spaces there are does not matter

A run over a text and a run over the text squeezed go side by side: they stand on the same line, and
what one has ahead is what the other has ahead, squeezed (`Squeezed`). So they read the same items
and meet the same errors, columns aside.

* `Program.withoutColumns`: what is read, columns aside.
* `squeezed_lexical`: lexemes are the same in both runs.
* `read_squeeze`: a text and the text squeezed give the same outcome.
* `read_collapseSpaces`: so do texts that become equal with one space for every run of spaces.
-/

set_option autoImplicit false

namespace MipsSource

open MipsSource.Lexeme MipsSource.Text

/-! ## Outcomes without columns -/

/-- The error without its column, and without a hint that quotes the source text. -/
def SourceError.eraseColumn (e : SourceError) : SourceError where
  cause := e.cause
  hint := match e.cause with
    | .noItem _ => none
    | _ => e.hint
  line := e.line
  col := none
  file := e.file

/-- The fault without its column. -/
def Fault.eraseColumn : Fault → Fault
  | .source e => .source e.eraseColumn
  | fault => fault

/-- Placing a fault on a line, in whichever column. -/
theorem Fault.Unplaced.eraseColumn_locate {fault : Fault} (h : fault.Unplaced)
    (line col col' : Int) :
    (fault.locate (some line) (some col) none).eraseColumn =
      (fault.locate (some line) (some col') none).eraseColumn := by
  cases fault with
  | source e =>
    simp [locate, SourceError.locate, Fault.eraseColumn, SourceError.eraseColumn, h e rfl]
  | _ => rfl

namespace Program

/-- The program with all its columns set to zero. -/
def eraseColumns (p : Program) : Program where
  items := p.items.map fun entry => (entry.1.eraseColumns, entry.2)

/-- What is read, columns aside. -/
def withoutColumns : Except Fault Program → Except Fault Program
  | .ok p => .ok p.eraseColumns
  | .error fault => .error fault.eraseColumn

theorem withoutColumns_map_cons (r : Except Fault Program) (v : Item) (line : Int) :
    withoutColumns (r.map fun p => { items := (v, line) :: p.items }) =
      (withoutColumns r).map fun p => { items := (v.eraseColumns, line) :: p.items } := by
  cases r <;> rfl

end Program

theorem Item.mapColumns_zero (i : Item) : i.mapColumns (fun _ => 0) = i.eraseColumns := by
  cases i <;> rfl

/-! ## A text and the text squeezed -/

/-- The second place has ahead what the first has, squeezed, on the same line. -/
structure Squeezed (c d : Cursor) : Prop where
  rest : d.rest = squeeze .code c.rest
  pastLeft : c.past = 0
  pastRight : d.past = 0
  line : d.line = c.line

/-- The coupling of a run with the run over the squeezed text. -/
def squeezed : Coupling where
  place := Squeezed
  fault := fun f g => f.eraseColumn = g.eraseColumn

/-- Moving on to where one text is again the other one squeezed. -/
theorem Squeezed.advance {c d : Cursor} (h : Squeezed c d) {n m : Nat}
    (hdrop : (squeeze .code c.rest).drop m = squeeze .code (c.rest.drop n)) :
    Squeezed (c.advance n) (d.advance m) := by
  refine ⟨?_, Cursor.advance_past h.pastLeft n, Cursor.advance_past h.pastRight m, ?_⟩
  · rw [Cursor.advance_rest, Cursor.advance_rest, h.rest, hdrop]
  · -- the newlines that are passed are all but those ahead
    have hall := count_newline_squeeze .code c.rest
    have hahead := count_newline_squeeze .code (c.rest.drop n)
    rw [← List.take_append_drop m (squeeze .code c.rest), List.count_append, hdrop, hahead] at hall
    conv at hall => rhs; rw [← List.take_append_drop n c.rest, List.count_append]
    rw [Cursor.advance_line h.pastLeft, Cursor.advance_line h.pastRight, h.rest, h.line]
    omega

theorem Squeezed.skipBlanks {c d : Cursor} (h : Squeezed c d) :
    Squeezed c.skipBlanks d.skipBlanks := by
  rw [Cursor.skipBlanks, Cursor.skipBlanks, h.rest]
  exact h.advance (drop_blankLength_squeeze false c.rest)

/-! ## Lexemes -/

section
open MipsSource.Parser

theorem scan_squeezed {α : Type} {scanner : List Char → Option (α × Nat)} (h : Aligned scanner) :
    Respects squeezed (scan scanner) := by
  intro c d hcd
  unfold scan
  rw [hcd.rest]
  rcases h c.rest with ⟨hx, hy⟩ | ⟨v, n, m, hx, hy, hdrop⟩
  · rw [hx, hy]
    exact .unmatched
  · rw [hx, hy]
    exact .matched rfl (hcd.advance hdrop)

theorem tag_squeezed {word : String} (hw : word ∈ [";", ",", ":", "(", ")"]) :
    Respects squeezed (tag word) := by
  have hpiece : ' ' ∉ word.toList ∧ Zone.code.after word.toList = .code := by
    simp only [List.mem_cons, List.not_mem_nil, or_false] at hw
    rcases hw with rfl | rfl | rfl | rfl | rfl <;> decide
  have hkept := kept_of_no_space hpiece.1 .code
  intro c d h
  have hsame : d.startsWith word.toList = c.startsWith word.toList := by
    rw [Bool.eq_iff_iff, Cursor.startsWith_iff h.pastLeft, Cursor.startsWith_iff h.pastRight,
      h.rest]
    exact hkept.prefix_squeeze_iff c.rest
  unfold tag
  rw [hsame]
  split
  · rename_i hstart
    rw [Cursor.startsWith_iff h.pastLeft] at hstart
    exact .matched rfl (h.advance (hkept.drop_squeeze hpiece.2 hstart))
  · exact .unmatched

theorem spaces_squeezed : Coupled squeezed (fun _ _ => True) Parser.spaces Parser.spaces := by
  intro c d h
  refine .matched trivial (h.advance ?_)
  rw [h.rest]
  exact drop_spaces_squeeze c.rest

theorem spaces1_squeezed : Coupled squeezed (fun _ _ => True) spaces1 spaces1 := by
  intro c d h
  have hnil : Lexeme.spaces d.rest = [] ↔ Lexeme.spaces c.rest = [] := by
    rw [spaces_eq_nil_iff, spaces_eq_nil_iff, h.rest, head?_squeeze]
  unfold spaces1 word scan
  simp only
  by_cases hs : Lexeme.spaces c.rest = []
  · rw [if_pos hs, if_pos (hnil.2 hs)]
    exact .unmatched
  · rw [if_neg hs, if_neg fun hd => hs (hnil.1 hd)]
    refine .matched trivial (h.advance ?_)
    rw [h.rest]
    exact drop_spaces_squeeze c.rest

/-- **Lexemes do not tell a text from the text squeezed.** -/
theorem squeezed_lexical : squeezed.Lexical fun _ => 0 where
  within _ _ h := ⟨h.pastLeft, h.pastRight⟩
  column _ _ _ := rfl
  unplaced _ _ := rfl
  located c d h fault hf := by
    show Fault.eraseColumn _ = Fault.eraseColumn _
    rw [h.line]
    exact hf.eraseColumn_locate c.line c.col d.col
  tag _ hw := tag_squeezed hw
  spaces := spaces_squeezed
  spaces1 := spaces1_squeezed
  identifier := scan_squeezed identifier?_blind.aligned
  directiveName := scan_squeezed directiveName?_blind.aligned
  label := scan_squeezed (label?_aligned.map String.ofList)
  registerName := scan_squeezed registerName?_blind.aligned
  integer := scan_squeezed integer?_blind.aligned
  symbolOffset := scan_squeezed symbolOffset?_aligned
  decimal := scan_squeezed decimal?_aligned
  character := scan_squeezed character?_blind.aligned
  string := scan_squeezed string?_blind.aligned

end

/-! ## Programs -/

namespace Program

/-- The error where no item can be read, columns and quoted text aside. -/
theorem expectedItem_squeezed {c d : Cursor} (h : Squeezed c d) :
    (expectedItem c).eraseColumn = (expectedItem d).eraseColumn := by
  simp only [expectedItem, SourceError.eraseColumn, h.line]

/-- **A run and the run over the squeezed text** have the same outcome, columns aside. -/
theorem read_squeezed {c d : Cursor} (h : Squeezed c d) :
    withoutColumns (read c) = withoutColumns (read d) := by
  -- induction on what is left to read in the first run
  induction hlen : c.rest.length using Nat.strongRecOn generalizing c d with
  | _ len ih =>
    have hskip := h.skipBlanks
    by_cases hend : c.skipBlanks.rest = []
    · have hend' : d.skipBlanks.rest = [] := by rw [hskip.rest, hend]; rfl
      rw [read_atEnd h.pastLeft hend, read_atEnd h.pastRight hend']
    have hend' : d.skipBlanks.rest ≠ [] := by
      intro hnil
      have hhead := head?_squeeze .code c.skipBlanks.rest
      rw [← hskip.rest, hnil] at hhead
      exact hend (List.head?_eq_none_iff.1 hhead.symm)
    rcases (Parser.item_coupled squeezed_lexical).reply_cases hskip with
      ⟨hi, hj⟩ | ⟨f, g, hi, hj, hfault⟩ | ⟨v, w, after, after', hi, hj, hvw, hat⟩
    · rw [read_unmatched h.pastLeft hend hi, read_unmatched h.pastRight hend' hj]
      simp only [withoutColumns, Fault.eraseColumn, expectedItem_squeezed hskip]
    · rw [read_failed h.pastLeft hi, read_failed h.pastRight hj]
      exact congrArg Except.error hfault
    · obtain ⟨n, hn, rfl, -, -, hpos⟩ := Parser.item_ensures _ _ _ hi
      have hlt : (c.skipBlanks.advance n).rest.length < len :=
        hlen ▸ Cursor.skipBlanks_advance_lt hpos hn
      rw [Item.mapColumns_zero, Item.mapColumns_zero] at hvw
      rw [read_matched h.pastLeft hi, read_matched h.pastRight hj, withoutColumns_map_cons,
        withoutColumns_map_cons, ih _ hlt hat rfl, hvw, hskip.line]

/-- **A text and the text squeezed** give the same outcome, columns aside. -/
theorem read_squeeze (text : List Char) :
    withoutColumns (read (.start text)) = withoutColumns (read (.start (squeeze .code text))) :=
  read_squeezed ⟨rfl, rfl, rfl, rfl⟩

end Program

/-! ## Texts without literals -/

/-- The text with a single space for every run of spaces. -/
def Text.collapseSpaces : List Char → List Char
  | [] => []
  | c :: rest =>
    if c = ' ' ∧ rest.head? = some ' ' then collapseSpaces rest else c :: collapseSpaces rest

theorem Zone.step_inLiteral {z : Zone} {c : Char} (hz : z.inLiteral = false)
    (hc : c ≠ '\'' ∧ c ≠ '"') : (z.step c).inLiteral = false := by
  cases z with
  | code =>
    rw [step, if_neg (not_or.2 ⟨hc.2, hc.1⟩)]
    split <;> rfl
  | comment =>
    rw [step]
    split <;> rfl
  | literal mark => cases hz
  | escape mark => cases hz

theorem Text.squeeze_eq_collapseSpaces {z : Zone} (hz : z.inLiteral = false) {text : List Char}
    (h : '\'' ∉ text ∧ '"' ∉ text) : squeeze z text = collapseSpaces text := by
  induction text generalizing z with
  | nil => rfl
  | cons c rest ih =>
    simp only [List.mem_cons, not_or] at h
    have hstep := Zone.step_inLiteral hz ⟨Ne.symm h.1.1, Ne.symm h.2.1⟩
    have hrest := ih hstep ⟨h.1.2, h.2.2⟩
    simp only [squeeze, collapseSpaces, hrest, hz, true_and]

/-- **The amount of spacing does not matter outside literals.** Texts without quotation marks that
become equal with a single space for every run of spaces give the same outcome: the same items on
the same lines, or an error with the same cause on the same line. -/
theorem Program.read_collapseSpaces {s t : List Char} (hs : '\'' ∉ s ∧ '"' ∉ s)
    (ht : '\'' ∉ t ∧ '"' ∉ t) (h : collapseSpaces s = collapseSpaces t) :
    withoutColumns (read (.start s)) = withoutColumns (read (.start t)) := by
  rw [read_squeeze s, read_squeeze t, squeeze_eq_collapseSpaces rfl hs,
    squeeze_eq_collapseSpaces rfl ht, h]

/-- Spaces around a comma, a sign and a parenthesis. -/
theorem Program.read_collapseSpaces_load :
    ('\'' ∉ "lw  $t0 ,   x + 4( $sp) # go".toList ∧ '"' ∉ "lw  $t0 ,   x + 4( $sp) # go".toList) ∧
      ('\'' ∉ "lw $t0  , x  +   4(   $sp)  #  go".toList ∧
        '"' ∉ "lw $t0  , x  +   4(   $sp)  #  go".toList) ∧
      collapseSpaces "lw  $t0 ,   x + 4( $sp) # go".toList =
        collapseSpaces "lw $t0  , x  +   4(   $sp)  #  go".toList ∧
      withoutColumns (read (.start "lw $t0  , x  +   4(   $sp)  #  go".toList)) =
        .ok { items :=
          [(.instruction { mnemonic := "lw", col := 0, operands :=
            [(.register ⟨8⟩, 0), (.memory ⟨29⟩ (some (.symbol { name := "x", offset := 4 })), 0)] },
            1)] } := by
  have hs : '\'' ∉ "lw  $t0 ,   x + 4( $sp) # go".toList ∧
      '"' ∉ "lw  $t0 ,   x + 4( $sp) # go".toList := by decide
  have ht : '\'' ∉ "lw $t0  , x  +   4(   $sp)  #  go".toList ∧
      '"' ∉ "lw $t0  , x  +   4(   $sp)  #  go".toList := by decide
  have h : collapseSpaces "lw  $t0 ,   x + 4( $sp) # go".toList =
      collapseSpaces "lw $t0  , x  +   4(   $sp)  #  go".toList := by decide
  have hread : (withoutColumns (read (.start "lw  $t0 ,   x + 4( $sp) # go".toList))).toOption =
      some { items :=
        [(.instruction { mnemonic := "lw", col := 0, operands :=
          [(.register ⟨8⟩, 0), (.memory ⟨29⟩ (some (.symbol { name := "x", offset := 4 })), 0)] },
          1)] } := by
    decide +kernel
  refine ⟨hs, ht, h, ?_⟩
  rw [← read_collapseSpaces hs ht h]
  exact eq_ok_of_toOption hread

end MipsSource
