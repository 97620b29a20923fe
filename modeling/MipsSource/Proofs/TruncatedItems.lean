import MipsSource.Proofs.Composed
import MipsSource.Proofs.OperandText
import MipsSource.Proofs.Truncates

/-!
# Items before a cut

Every parser of the language reads the same before a cut at a seam, as long as it does not go past
the cut:

* `Parser.identifier_sharp`, `Parser.integer_sharp`, `Parser.register_sharp`, ...: names, numbers
  and registers do not match where they would go past the cut.
* `Parser.memory_loose`: a displacement that goes past the cut leaves no parenthesis before it.
* `Parser.item_loose`: an item that ends before the cut is read without what follows.
-/

set_option autoImplicit false

namespace MipsSource.Parser

open Lexeme

variable {u : List Char}

/-! ## Blanks, names and literals -/

theorem word_sharp {lexeme? : List Char → Option (List Char)}
    (hcut : ∀ l, Clean l u → Cut List.length lexeme? l u)
    (hends : ∀ text w, lexeme? text = some w → w.length ≤ text.length ∧ Whole text w.length) :
    Sharp u Eq (word lexeme?) (word lexeme?) :=
  scan_map_sharp (fun _ => rfl) hcut hends

theorem spaces_sharp : Sharp u Eq spaces spaces := by
  refine word_sharp (fun l h => .inl ?_) fun text w h => ?_
  · simp only [spaces_clean h.space]
  · cases h
    exact ⟨length_spaces_le text, (spans_spaces text).whole⟩

theorem spaces1_sharp : Sharp u Eq spaces1 spaces1 := by
  refine word_sharp (fun l h => .inl ?_) fun text w h => ?_
  · simp only [spaces_clean h.space]
  · split at h
    · cases h
    · cases h
      exact ⟨length_spaces_le text, (spans_spaces text).whole⟩

theorem identifier_sharp : Sharp u Eq identifier identifier :=
  word_sharp (fun _ h => identifier?_cut h) fun _ _ h =>
    ⟨(identifier?_spec h).2, (identifier?_ends h).1.whole⟩

theorem integer_sharp : Sharp u Eq integer integer := by
  have hscan : Sharp u Eq (scan fun text => (integer? text).map fun found =>
      (found, found.length)) _ :=
    scan_map_sharp (fun _ => rfl) (fun _ h => integer?_cut h) fun _ _ h =>
      ⟨(integer?_spec h).2, (integer?_ends h).1.whole⟩
  exact hscan.andThen_sharp fun _ => .ofExcept _

/-- An integer with its place: the integer is the same. -/
theorem placedInteger_sharp :
    Sharp u (fun v w => v.2 = w.2) placedInteger placedInteger :=
  .position_bind placedInteger_ensures.forward fun _ _ _ =>
    integer_sharp.bind (fun v => ⟨v, rfl⟩) (fun _ _ hv => .pure hv) rfl

theorem float_sharp : Sharp u Eq float float :=
  (scan_sharp (fun _ h => decimal?_cut h) fun _ _ _ h =>
    ⟨(decimal?_spec h).2, (decimal?_ends h).1.whole⟩).map _

theorem quoted_sharp {body? : List Char → Option (List Char)} (mark : Char)
    (hplain : isPlain mark = false) (hm : mark ≠ '$')
    (hcut : ∀ l, Cut (fun body => body.length + 2) body? l u)
    (hends : ∀ text body, body? text = some body → mark :: body ++ [mark] <+: text) :
    Sharp u Eq (quoted body?) (quoted body?) := by
  have hscan : Sharp u Eq
      (scan fun text => (body? text).map fun body => (body, body.length + 2))
      (scan fun text => (body? text).map fun body => (body, body.length + 2)) := by
    refine scan_map_sharp (fun _ => rfl) (fun l _ => hcut l) fun text body h => ?_
    have hfront := hends text body h
    exact ⟨quoted_length_le hfront, (quoted_ends hplain hm hfront).1⟩
  exact hscan.andThen_sharp fun _ => .ofOption _

theorem string_sharp : Sharp u Eq string string :=
  quoted_sharp '"' (by decide) (by decide) (fun l => string?_cut l u)
    fun _ _ h => (string?_eq_some_iff.1 h).2

theorem character_sharp : Sharp u Eq character character :=
  quoted_sharp '\'' (by decide) (by decide) (fun l => character?_cut l u)
    fun _ _ h => (character?_eq_some_iff.1 h).2

theorem separator_sharp {word : String} (hw : '$' ∉ word.toList) :
    Sharp u Eq (sequence [spaces, tag word, spaces]) (sequence [spaces, tag word, spaces]) := by
  refine .sequence fun p hp => ?_
  simp only [List.mem_cons, List.not_mem_nil, or_false] at hp
  rcases hp with rfl | rfl | rfl
  · exact spaces_sharp
  · exact tag_sharp hw
  · exact spaces_sharp

theorem comma_sharp : Sharp u Eq comma comma :=
  separator_sharp (by decide)

theorem statementEnd_loose : Loose u Eq statementEnd statementEnd := by
  have hsemi : Loose u Eq (optional (tag ";")) (optional (tag ";")) :=
    .withDefault none (Loose.map some (tag_sharp (by decide)).loose)
  exact spaces_sharp.andThen_loose fun _ =>
    hsemi.andThen_total (fun _ => .pure rfl) fun _ => .pure ()

theorem spaces_total : spaces.Total := by
  intro c h
  cases h

theorem statementEnd_total : statementEnd.Total :=
  spaces_total.bind fun _ => (Total.withDefault _ none).bind fun _ => .pure ()

/-! ## Operands -/

theorem register_sharp : Sharp u Eq register register := by
  have hscan : Sharp u Eq (scan fun text => (registerName? text).map fun name =>
      (name, name.length + 1)) _ :=
    scan_map_sharp (fun _ => rfl) (fun _ h => registerName?_cut h) fun _ _ h =>
      ⟨registerName?_spec h, (registerName?_ends h).1⟩
  refine .position_bind register_consumes.forward fun start start' _ => ?_
  refine Sharp.bind hscan (fun v => ⟨v, rfl⟩) ?_ rfl
  rintro name _ rfl
  cases Register.resolve name with
  | ok r => exact .pure rfl
  | error fault => exact .fail _

theorem immediate_sharp : Sharp u Eq immediate immediate := by
  refine Sharp.bind placedInteger_sharp (fun v => ⟨v, rfl⟩) ?_ rfl
  rintro ⟨start, value⟩ ⟨start', _⟩ rfl
  simp only
  split
  · exact .pure rfl
  · exact .fail _

/-- The reply is no failure. -/
def Calm {α : Type} (r : Reply α) : Prop :=
  ∀ fault, r ≠ .failed fault

theorem symbol_calm : Truncates u Eq Calm symbol symbol := by
  have hoffset : Sharp u Eq (scan symbolOffset?) (scan symbolOffset?) :=
    scan_sharp (fun _ h => symbolOffset?_cut h) fun _ _ _ h =>
      ⟨symbolOffset?_spec h, (symbolOffset?_ends h).1.whole⟩
  refine identifier_sharp.andThen (fun name => ?_) fun fault h => by cases h
  refine Truncates.bind_total hoffset.optional (fun v => ⟨v, rfl⟩) ?_ (fun found => ?_) ?_
  · rintro found _ rfl
    cases found with
    | none => exact .pure rfl
    | some found =>
      cases hread : Numeral.readLiteral found.2 with
      | ok distance => simp only [hread]; exact .pure rfl
      | error fault => simp only [hread]; exact .fail fault
  · cases found with
    | none => exact .pure _
    | some found => exact (Total.ofExcept _).bind fun _ => .pure _
  · rintro d ⟨d', hd⟩ fault h
    rw [bind_matched hd] at h
    cases h

/-- Where an integer stands, the text cut off starts with no name. -/
theorem symbol_unmatched_of_immediate {c d mid : Cursor} {value : Int} (hat : AtCut u c d)
    (h : immediate c = .matched value mid) : symbol d = .unmatched := by
  have hd := hat.beside.pastRight
  cases hrest : d.rest with
  | nil =>
    have hname : identifier.Refuses [] := word_refuses rfl
    exact hname.bind d hd hrest
  | cons x l =>
    cases hx : isWordStart x with
    | false => exact (identifier_refuses hx).bind d hd hrest
    | true =>
      have hnone : immediate c = .unmatched :=
        immediate_refuses (not_sign_of_wordStart hx) (not_digit_of_wordStart hx) c
          hat.beside.pastLeft (by rw [hat.rest, hrest]; rfl)
      rw [hnone] at h
      cases h

theorem displacement_eq_matched {c after : Cursor} {v : Displacement}
    (h : displacement c = .matched v after) :
    (∃ i, immediate c = .matched i after) ∨
      (immediate c = .unmatched ∧ ∃ s, symbol c = .matched s after) := by
  rcases orElse_eq_matched h with h | ⟨hnone, h⟩
  · obtain ⟨i, mid, hi, hv⟩ := bind_eq_matched.1 h
    cases hv
    exact .inl ⟨i, hi⟩
  · rcases orElse_eq_matched h with h | ⟨-, h⟩
    · obtain ⟨s, mid, hs, hv⟩ := bind_eq_matched.1 h
      cases hv
      rw [map_apply] at hnone
      cases hi : immediate c with
      | matched i after => rw [hi] at hnone; cases hnone
      | unmatched => exact .inr ⟨rfl, s, hs⟩
      | failed fault => rw [hi] at hnone; cases hnone
    · cases h

theorem displacement_calm_of {d : Cursor} (hi : immediate d = .unmatched)
    (hs : Calm (symbol d)) : Calm (displacement d) := by
  intro fault h
  have hnext : displacement d = orElse (Displacement.symbol <$> symbol) noMatch d :=
    orElse_unmatched (map_unmatched hi)
  rw [hnext, orElse, map_apply] at h
  cases hd : symbol d with
  | matched s after => rw [hd] at h; cases h
  | unmatched => rw [hd] at h; cases h
  | failed f => exact hs f hd

/-- A displacement that goes past the cut: what stands before the cut is no failure. -/
theorem displacement_calm : Truncates u Eq Calm displacement displacement := by
  have hloose : Loose u Eq displacement displacement := by
    refine .choice fun p hp => ?_
    simp only [List.mem_cons, List.not_mem_nil, or_false] at hp
    rcases hp with rfl | rfl
    · exact .map _ immediate_sharp.loose
    · exact .map _ symbol_calm.loose
  refine hloose.strengthen fun c d v after hat hc hpast _ => ?_
  obtain ⟨i, hi⟩ | ⟨hnone, s, hs⟩ := displacement_eq_matched hc
  · -- an integer cut off: neither an integer nor a name is left of it
    refine displacement_calm_of (Truncates.of_past immediate_sharp hat hi hpast) ?_
    rw [symbol_unmatched_of_immediate hat hi]
    intro fault h
    cases h
  · exact displacement_calm_of (Truncates.of_unmatched immediate_sharp hat hnone)
      (symbol_calm.of_past hat hs hpast)

/-- The characters of a displacement. -/
theorem displacement_plain : displacement.Ensures fun c _ n => Spans isPlain c.rest n := by
  have hwords : HoldsOfWords (Spans isPlain) :=
    ⟨fun _ _ h => (identifier?_ends h).1, fun _ _ h => (integer?_ends h).1,
      fun _ _ _ h => (symbolOffset?_ends h).1⟩
  have hadd : Additive (Spans isPlain) := ⟨spans_zero isPlain, fun _ _ _ ha hb => ha.add hb⟩
  exact (displacement_composed hwords).ensures hadd

/-- A displacement that goes past the cut leaves no parenthesis before the cut. -/
theorem optional_displacement :
    Truncates u Eq (fun r => ∃ o d, r = .matched o d ∧ '(' ∉ d.rest) (optional displacement)
      (optional displacement) := by
  have hloose : Loose u Eq (optional displacement) (optional displacement) :=
    .withDefault none (Loose.map some displacement_calm.loose)
  refine hloose.strengthen fun c d o after hat hc hpast _ => ?_
  have hle := hat.length_le
  obtain ⟨v, hv⟩ | rfl := optional_eq_matched hc
  · have hcalm := displacement_calm.of_past hat hv hpast
    obtain ⟨n, hn, rfl, hspan⟩ := displacement_plain c v after hv
    have hparen : '(' ∉ d.rest := by
      intro hmem
      have hfront : d.rest <+: c.rest.take n := by
        refine List.prefix_take_iff.2 ⟨⟨u, hat.rest.symm⟩, ?_⟩
        rw [Cursor.advance_rest, List.length_drop, hat.rest, List.length_append] at hpast
        omega
      exact absurd (hspan _ (hfront.subset hmem)) (by decide)
    cases hd : displacement d with
    | unmatched => exact ⟨none, d, orElse_unmatched (map_unmatched hd), hparen⟩
    | failed fault => exact absurd hd (hcalm fault)
    | matched w after =>
      obtain ⟨m, -, rfl, -⟩ := displacement_calm (u := u).forward d w after hd
      refine ⟨some w, _, orElse_matched (map_matched hd), fun hmem => hparen ?_⟩
      rw [Cursor.advance_rest] at hmem
      exact List.mem_of_mem_drop hmem
  · omega

theorem memory_loose : Loose u Eq memory memory := by
  refine Truncates.bind optional_displacement (fun v => ⟨v, rfl⟩) ?_ ?_ trivial
  · rintro o _ rfl
    have hbase : Sharp u Eq
        (do let _ ← tag "("; let _ ← spaces; let base ← register; let _ ← spaces
            let _ ← tag ")"; return Operand.memory base o)
        (do let _ ← tag "("; let _ ← spaces; let base ← register; let _ ← spaces
            let _ ← tag ")"; return Operand.memory base o) :=
      (tag_sharp (by decide)).andThen_sharp fun _ => spaces_sharp.andThen_sharp fun _ =>
        register_sharp.andThen_sharp fun _ => spaces_sharp.andThen_sharp fun _ =>
          (tag_sharp (by decide)).andThen_sharp fun _ => .pure rfl
    exact hbase.loose
  · rintro d ⟨o, d', hd, hparen⟩
    rw [bind_matched hd]
    refine bind_unmatched ?_
    have hstart : ¬ d'.startsWith "(".toList = true := by
      intro hs
      simp only [Cursor.startsWith, Bool.and_eq_true, List.isPrefixOf_iff_prefix] at hs
      exact hparen (hs.2.subset (by simp))
    rw [tag, if_neg hstart]

theorem operand_loose : Loose u Eq operand operand := by
  refine .choice fun p hp => ?_
  simp only [simpleOperands, List.mem_cons, List.not_mem_nil, or_false] at hp
  rcases hp with rfl | rfl | rfl | rfl | rfl | rfl
  · exact memory_loose
  · exact .map _ register_sharp.loose
  · exact .map _ float_sharp.loose
  · exact .map _ immediate_sharp.loose
  · exact .map _ character_sharp.loose
  · exact .map _ symbol_calm.loose

theorem placedOperand_loose : Loose u Eq placedOperand placedOperand := by
  refine .position_bind placedOperand_ensures.forward fun start start' hat => ?_
  refine Loose.bind_total operand_loose (fun v => ⟨v, rfl⟩) ?_ fun _ => .pure _
  rintro value _ rfl
  exact .pure (by rw [hat.beside.col])

/-! ## Directives -/

/-- A repetition with its place: the count is the same. -/
theorem repetition_sharp : Sharp u (fun v w => v.2 = w.2) repetition repetition := by
  refine Sharp.bind (separator_sharp (by decide)) (fun v => ⟨v, rfl⟩) ?_ rfl
  exact fun _ _ _ => placedInteger_sharp

theorem integerDatum_loose (what : String) (bits : Nat) :
    Loose u Eq (integerDatum what bits) (integerDatum what bits) := by
  refine Sharp.bind placedInteger_sharp (fun v => ⟨v, rfl⟩) ?_ trivial
  rintro ⟨start, value⟩ ⟨start', _⟩ rfl
  simp only
  split
  · refine Loose.bind_total (repetition_sharp.loose.optional fun v => ⟨v, rfl⟩)
      (fun v => ⟨v, ?_⟩) ?_ fun found => ?_
    · cases v with
      | none => exact .none
      | some v => exact .some rfl
    · intro found found' hfound
      cases hfound with
      | none => exact .pure rfl
      | @some v w hvw =>
        obtain ⟨place, count⟩ := v
        obtain ⟨place', count'⟩ := w
        obtain rfl : count = count' := hvw
        simp only
        split
        · exact .pure rfl
        · exact .fail _
    · cases found with
      | none => exact .pure _
      | some v =>
        simp only
        split
        · exact .pure _
        · exact .fail _
  · exact .fail _

theorem element_loose (what : String) (bits : Nat) (symbols : Bool) :
    Loose u Eq (element what bits symbols) (element what bits symbols) := by
  unfold element
  split
  · exact (integerDatum_loose what bits).orElse (.map _ symbol_calm.loose)
  · exact integerDatum_loose what bits

theorem number_loose : Loose u Eq number number :=
  float_sharp.loose.orElse (integer_sharp.andThen_loose fun _ => .ofExcept _)

theorem count_loose (what : String) : Loose u Eq (count what) (count what) := by
  refine Sharp.bind placedInteger_sharp (fun v => ⟨v, rfl⟩) ?_ trivial
  rintro ⟨start, value⟩ ⟨start', _⟩ rfl
  simp only
  split
  · exact .pure rfl
  · exact .fail _

/-- The data of a directive, after spaces. -/
theorem afterSpaces_loose {α : Type} {p : Parser α} (hp : Loose u Eq p p)
    (f : α → List Datum) :
    Loose u Eq (preceded spaces1 p >>= fun v => pure (f v))
      (preceded spaces1 p >>= fun v => pure (f v)) := by
  have hpre : Loose u Eq (preceded spaces1 p) (preceded spaces1 p) :=
    spaces1_sharp.preceded hp trivial
  exact hpre.andThen_total (fun _ => .pure rfl) fun _ => .pure _

theorem directiveArgs_loose (name : String) (form : DirectiveForm) :
    Loose u Eq (directiveArgs name form) (directiveArgs name form) := by
  cases form with
  | plain => exact Truncates.pure rfl
  | string => exact afterSpaces_loose string_sharp.loose _
  | integers bits symbols =>
    exact spaces1_sharp.preceded
      (Loose.sepBy1 comma_sharp (element_loose name bits symbols)) trivial
  | floats => exact afterSpaces_loose (.sepBy1 comma_sharp number_loose) _
  | count => exact afterSpaces_loose (count_loose name) _
  | name => exact afterSpaces_loose identifier_sharp.loose _

theorem directive_loose : Loose u Eq directive directive := by
  have hname : Sharp u Eq (word directiveName?) (word directiveName?) :=
    word_sharp (fun _ h => directiveName?_cut h) fun _ _ h =>
      ⟨(directiveName?_spec h).2, (directiveName?_ends h).1.whole⟩
  refine hname.andThen_loose fun name => ?_
  refine Sharp.andThen_loose (.ofOption _) fun form => ?_
  refine (directiveArgs_loose name form).andThen_total (fun args => ?_) fun args => ?_
  · exact statementEnd_loose.andThen_total (fun _ => .pure rfl) fun _ => .pure _
  · exact statementEnd_total.bind fun _ => .pure _

/-! ## Items -/

theorem label_loose : Loose u Eq label label := by
  have hcut : ∀ l, Clean l u → Cut Prod.snd label? l u := fun _ h => label?_cut h
  have hscan : Sharp u Eq label label :=
    scan_map_sharp (fun _ => rfl) hcut fun _ _ h =>
      ⟨(label?_spec h).2.2, (label?_ends h).1⟩
  exact hscan.loose

theorem instruction_loose : Loose u Eq instruction instruction := by
  have hoperands : Loose u Eq (withDefault (preceded spaces1 (sepBy1 comma placedOperand)) [])
      (withDefault (preceded spaces1 (sepBy1 comma placedOperand)) []) :=
    .withDefault [] (spaces1_sharp.preceded (Loose.sepBy1 comma_sharp placedOperand_loose) trivial)
  refine .position_bind instruction_ensures.forward fun start start' hat => ?_
  refine Sharp.bind identifier_sharp (fun v => ⟨v, rfl⟩) ?_ trivial
  rintro mnemonic _ rfl
  refine Loose.bind_total hoperands (fun v => ⟨v, rfl⟩) ?_ fun operands => ?_
  · rintro operands _ rfl
    refine Loose.bind_total statementEnd_loose (fun v => ⟨v, rfl⟩) (fun _ _ _ => ?_)
      fun _ => .pure _
    exact .pure (by rw [hat.beside.col])
  · exact statementEnd_total.bind fun _ => .pure _

/-- **An item that ends before the cut** is read without what follows the cut. -/
theorem item_loose : Loose u Eq item item := by
  refine .choice fun p hp => ?_
  simp only [List.mem_cons, List.not_mem_nil, or_false] at hp
  rcases hp with rfl | rfl | rfl
  · exact .map _ label_loose
  · exact .map _ directive_loose
  · exact .map _ instruction_loose

end MipsSource.Parser
