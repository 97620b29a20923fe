import MipsSource.Proofs.Composed
import MipsSource.Proofs.CoupledItems

/-!
# Items see only their line

What an item is depends on the text up to the end of its line, and where it stands only moves the
places in its errors. `beside t t' k m` couples two runs over texts that go on alike up to a line
end and then with `t` and `t'`; the second run is `k` lines and `m` characters further on.
`besideWhere C` does so as long as `C` holds of what stands before the tails: all lexemes but
literals end at a comment as well, and `Shields` says what keeps literals from reaching into it.

* `Fault.shiftLine`: a fault some lines further on.
* `besideWhere_lexical`: lexemes are the same in two such runs.
* `Parser.item_respects`: from such places the same item is read, or the same fault is met `k` lines
  further on.
-/

set_option autoImplicit false

namespace MipsSource

/-! ## Faults further on -/

namespace Fault

/-- The same fault, its place `k` lines further on. -/
def shiftLine (k : Int) : Fault → Fault
  | .source e => .source { e with line := e.line.map (· + k) }
  | fault => fault

theorem Unplaced.shiftLine {fault : Fault} (h : fault.Unplaced) (k : Int) :
    fault.shiftLine k = fault := by
  cases fault with
  | source e =>
    have he := h e rfl
    obtain ⟨cause, hint, line, col, file⟩ := e
    cases he
    rfl
  | _ => rfl

@[simp]
theorem shiftLine_zero (fault : Fault) : fault.shiftLine 0 = fault := by
  cases fault with
  | source e =>
    obtain ⟨cause, hint, line, col, file⟩ := e
    cases line <;> simp [shiftLine]
  | _ => rfl

/-- Placing a fault further on is placing it and moving it on. -/
theorem Unplaced.locate_shiftLine {fault : Fault} (h : fault.Unplaced) (line col k : Int) :
    (fault.locate (some line) (some col) none).shiftLine k =
      fault.locate (some (line + k)) (some col) none := by
  cases fault with
  | source e => simp [locate, Fault.shiftLine, SourceError.locate, h e rfl]
  | _ => rfl

/-- A file can be named before or after moving on. -/
theorem shiftLine_locate_file (fault : Fault) (file : Option String) (k : Int) :
    (fault.shiftLine k).locate none none file = (fault.locate none none file).shiftLine k := by
  cases fault with
  | source e => simp [locate, shiftLine, SourceError.locate]
  | _ => rfl

end Fault

/-! ## Two places on lines that go on alike -/

/-- The places `c` and `d` of two texts that go on alike up to `t` and `t'`, the second `k` lines
and `m` characters further on, in the same column. -/
structure Beside (t t' : List Char) (k : Int) (m : Nat) (c d : Cursor) : Prop where
  rest : ∃ l, c.rest = l ++ t ∧ d.rest = l ++ t'
  pastLeft : c.past = 0
  pastRight : d.past = 0
  line : d.line = c.line + k
  col : d.col = c.col
  offset : d.offset = c.offset + m

/-- The coupling of two runs over texts that go on alike up to `t` and `t'`. -/
def beside (t t' : List Char) (k : Int) (m : Nat) : Coupling where
  place := Beside t t' k m
  fault := fun f g => g = f.shiftLine k

section
variable {t t' : List Char} {k : Int} {m : Nat} {c d : Cursor}

/-- Moving on over characters before the tails keeps places beside each other. -/
theorem Beside.advance (h : Beside t t' k m c d) {l : List Char} (hc : c.rest = l ++ t)
    (hd : d.rest = l ++ t') {n : Nat} (hn : n ≤ l.length) :
    Beside t t' k m (c.advance n) (d.advance n) := by
  induction n generalizing c d l with
  | zero => exact h
  | succ n ih =>
    obtain ⟨ch, l, rfl⟩ : ∃ ch rest, l = ch :: rest := by
      cases l with
      | nil => simp at hn
      | cons ch rest => exact ⟨ch, rest, rfl⟩
    rw [Cursor.advance_succ h.pastLeft hc, Cursor.advance_succ h.pastRight hd]
    have hstep : Beside t t' k m (c.step ch (l ++ t)) (d.step ch (l ++ t')) := by
      refine ⟨⟨l, rfl, rfl⟩, h.pastLeft, h.pastRight, ?_, ?_, ?_⟩
      · simp only [Cursor.step, h.line]
        split <;> omega
      · simp only [Cursor.step, h.col]
      · simp only [Cursor.step, h.offset]
        omega
    exact ih hstep rfl rfl (by simpa using hn)

end

/-! ## Lexemes before the tails -/

/-- The coupling of two runs over texts that go on alike up to `t` and `t'`, where `C` holds of what
stands before the tails. -/
def besideWhere (C : List Char → Prop) (t t' : List Char) (k : Int) (m : Nat) : Coupling where
  place := fun c d => Beside t t' k m c d ∧ ∃ l, c.rest = l ++ t ∧ C l
  fault := fun f g => g = f.shiftLine k

theorem beside_eq_besideWhere (t t' : List Char) (k : Int) (m : Nat) :
    beside t t' k m = besideWhere (fun _ => True) t t' k m := by
  have hplace : ∀ c d, Beside t t' k m c d ↔
      Beside t t' k m c d ∧ ∃ l, c.rest = l ++ t ∧ True := by
    intro c d
    refine ⟨fun h => ⟨h, ?_⟩, fun h => h.1⟩
    obtain ⟨l, hl, -⟩ := h.rest
    exact ⟨l, hl, trivial⟩
  simp only [beside, besideWhere, ← hplace]

/-- Where `C` holds of a text and `T` of a tail, the lexemes of the text do not reach into the tail;
and `C` still holds of what is left after pieces of which `S` holds, as it does of all lexemes. -/
structure Shields (S : List Char → Nat → Prop) (C T : List Char → Prop) : Prop where
  lexemes : Parser.HoldsOfLexemes S
  keeps : ∀ l n, S l n → C l → C (l.drop n)
  codeEnd : ∀ u, T u → Lexeme.AtCodeEnd u
  character : ∀ l u, C l → T u → Lexeme.character? (l ++ u) = Lexeme.character? l
  string : ∀ l u, C l → T u → Lexeme.string? (l ++ u) = Lexeme.string? l

section
variable {S : List Char → Nat → Prop} {C T : List Char → Prop} (hS : Shields S C T)
  {t t' : List Char} (ht : T t) (ht' : T t') {k : Int} {m : Nat}
include hS ht ht'

open MipsSource.Parser MipsSource.Lexeme

/-- A scanner that stays within the text and does not see the tails. -/
theorem scan_besideWhere {α : Type} {scanner : List Char → Option (α × Nat)}
    (hlen : ∀ text v n, scanner text = some (v, n) → n ≤ text.length ∧ S text n)
    (happ : ∀ l u, C l → T u → scanner (l ++ u) = scanner l) :
    Respects (besideWhere C t t' k m) (scan scanner) := by
  rintro c d ⟨h, l, hc, hl⟩
  obtain ⟨l', hc', hd⟩ := h.rest
  obtain rfl : l' = l := List.append_cancel_right (hc'.symm.trans hc)
  unfold scan
  rw [hc, hd, happ l' t hl ht, happ l' t' hl ht']
  cases hs : scanner l' with
  | none => exact .unmatched
  | some found =>
    obtain ⟨v, n⟩ := found
    obtain ⟨hn, hpiece⟩ := hlen l' v n hs
    refine .matched rfl ⟨h.advance hc hd hn, l'.drop n, ?_, hS.keeps l' n hpiece hl⟩
    rw [Cursor.advance_rest, hc, List.drop_append_of_le_length hn]

/-- A scanner whose answer is worked out from a lexeme. -/
theorem scan_map_besideWhere {α γ : Type} {lexeme? : List Char → Option γ} {f : γ → α × Nat}
    (hlen : ∀ text g, lexeme? text = some g → (f g).2 ≤ text.length ∧ S text (f g).2)
    (happ : ∀ l u, C l → T u → lexeme? (l ++ u) = lexeme? l) :
    Respects (besideWhere C t t' k m) (scan fun text => (lexeme? text).map f) := by
  refine scan_besideWhere hS ht ht' (fun text v n h => ?_) fun l u hl hu => by rw [happ l u hl hu]
  obtain ⟨g, hg, he⟩ := Option.map_eq_some_iff.1 h
  have hspec := hlen text g hg
  rw [he] at hspec
  exact hspec

theorem word_besideWhere {lexeme? : List Char → Option (List Char)}
    (hlen : ∀ text w, lexeme? text = some w → w.length ≤ text.length ∧ S text w.length)
    (happ : ∀ l u, C l → T u → lexeme? (l ++ u) = lexeme? l) :
    Respects (besideWhere C t t' k m) (word lexeme?) :=
  scan_map_besideWhere hS ht ht' hlen happ

theorem tag_besideWhere {word : String} (hw : word ∈ [";", ",", ":", "(", ")"]) :
    Respects (besideWhere C t t' k m) (tag word) := by
  have hhead : '\n' ∉ word.toList ∧ commentChar ∉ word.toList := by
    simp only [List.mem_cons, List.not_mem_nil, or_false] at hw
    rcases hw with rfl | rfl | rfl | rfl | rfl <;> decide
  rintro c d ⟨h, l, hc, hl⟩
  obtain ⟨l', hc', hd⟩ := h.rest
  obtain rfl : l' = l := List.append_cancel_right (hc'.symm.trans hc)
  have hstart : ∀ {x : Cursor} {u : List Char}, T u → x.past = 0 → x.rest = l' ++ u →
      (x.startsWith word.toList = true ↔ word.toList <+: l') := by
    intro x u hu hx hr
    rw [Cursor.startsWith_iff hx, hr]
    refine prefix_append_iff (fun y hy => ?_) l'
    rcases hS.codeEnd u hu y hy with rfl | rfl
    · exact hhead.1
    · exact hhead.2
  unfold tag
  by_cases hp : word.toList <+: l'
  · rw [if_pos ((hstart ht h.pastLeft hc).2 hp), if_pos ((hstart ht' h.pastRight hd).2 hp)]
    refine .matched rfl ⟨h.advance hc hd hp.length_le, l'.drop word.toList.length, ?_, ?_⟩
    · rw [Cursor.advance_rest, hc, List.drop_append_of_le_length hp.length_le]
    · exact hS.keeps _ _ (hS.lexemes.tag word hw l' hp) hl
  · rw [if_neg fun hs => hp ((hstart ht h.pastLeft hc).1 hs),
      if_neg fun hs => hp ((hstart ht' h.pastRight hd).1 hs)]
    exact .unmatched

theorem spaces_besideWhere : Respects (besideWhere C t t' k m) Parser.spaces := by
  refine word_besideWhere hS ht ht' (fun text w h => ?_) fun l u _ hu => ?_
  · cases h
    exact ⟨length_spaces_le text, hS.lexemes.spaces text⟩
  · rw [spaces_append (hS.codeEnd u hu).ends]

theorem spaces1_besideWhere : Respects (besideWhere C t t' k m) spaces1 := by
  refine word_besideWhere hS ht ht' (fun text w h => ?_) fun l u _ hu => ?_
  · split at h
    · cases h
    · cases h
      exact ⟨length_spaces_le text, hS.lexemes.spaces text⟩
  · rw [spaces_append (hS.codeEnd u hu).ends]

/-- **Lexemes do not see the tails**, if literals do not. -/
theorem besideWhere_lexical : (besideWhere C t t' k m).Lexical id where
  within c d h := ⟨h.1.pastLeft, h.1.pastRight⟩
  column c d h := h.1.col.symm
  unplaced fault h := (h.shiftLine k).symm
  located c d h fault hf := by
    show _ = Fault.shiftLine k _
    rw [hf.locate_shiftLine, h.1.line, h.1.col]
  tag word hw := tag_besideWhere hS ht ht' hw
  spaces := (spaces_besideWhere hS ht ht').mono fun _ _ _ => trivial
  spaces1 := (spaces1_besideWhere hS ht ht').mono fun _ _ _ => trivial
  identifier := word_besideWhere hS ht ht'
    (fun text w h => ⟨(identifier?_spec h).2, hS.lexemes.identifier text w h⟩)
    fun l u _ hu => identifier?_append (hS.codeEnd u hu).ends.breaks l
  directiveName := word_besideWhere hS ht ht'
    (fun text w h => ⟨(directiveName?_spec h).2, hS.lexemes.directiveName text w h⟩)
    fun l u _ hu => directiveName?_append (hS.codeEnd u hu).ends.breaks l
  label := scan_map_besideWhere hS ht ht'
    (fun text found h => ⟨(label?_spec h).2.2, hS.lexemes.label text found.1 found.2 h⟩)
    fun l u _ hu => by
      refine label?_append (hS.codeEnd u hu).ends (fun hm => ?_) l
      rcases hS.codeEnd u hu ':' hm with h | h <;> cases h
  registerName := scan_map_besideWhere hS ht ht'
    (fun text w h => ⟨registerName?_spec h, hS.lexemes.registerName text w h⟩)
    fun l u _ hu => registerName?_append (hS.codeEnd u hu).ends.breaks l
  integer := scan_map_besideWhere hS ht ht'
    (fun text w h => ⟨(integer?_spec h).2, hS.lexemes.integer text w h⟩)
    fun l u _ hu => integer?_append (hS.codeEnd u hu).ends.breaks l
  symbolOffset := scan_besideWhere hS ht ht'
    (fun text v n h => ⟨symbolOffset?_spec h, hS.lexemes.symbolOffset text v n h⟩)
    fun l u _ hu => symbolOffset?_append (hS.codeEnd u hu).ends l
  decimal := scan_besideWhere hS ht ht'
    (fun text v n h => ⟨(decimal?_spec h).2, hS.lexemes.decimal text v n h⟩)
    fun l u _ hu => decimal?_append (hS.codeEnd u hu).ends.breaks l
  character := scan_map_besideWhere hS ht ht'
    (fun text w h => ⟨quoted_length_le (character?_eq_some_iff.1 h).2,
      hS.lexemes.character text w h⟩)
    hS.character
  string := scan_map_besideWhere hS ht ht'
    (fun text w h => ⟨quoted_length_le (string?_eq_some_iff.1 h).2, hS.lexemes.string text w h⟩)
    hS.string

/-- **An item does not see the tails**, if literals do not. -/
theorem item_besideWhere : Respects (besideWhere C t t' k m) item :=
  (item_coupled (besideWhere_lexical hS ht ht')).mono fun i j h => by
    rwa [Item.mapColumns_id, Item.mapColumns_id] at h

end

/-- Literals end with their line, whatever stands before. -/
theorem shields_lineEnd : Shields Parser.anyPiece (fun _ => True) Lexeme.AtLineEnd where
  lexemes := Parser.holdsOfLexemes_anyPiece
  keeps _ _ _ _ := trivial
  codeEnd _ h := h.codeEnd
  character l _ _ hu := Lexeme.character?_append hu l
  string l _ _ hu := Lexeme.string?_append hu l

/-- **An item sees only its line**: from places that go on alike up to a line end, the same item is
read, or the same fault is met further on. -/
theorem Parser.item_respects {t t' : List Char} {k : Int} {m : Nat} (ht : Lexeme.AtLineEnd t)
    (ht' : Lexeme.AtLineEnd t') : Respects (beside t t' k m) item := by
  rw [beside_eq_besideWhere]
  exact item_besideWhere shields_lineEnd ht ht'

end MipsSource
