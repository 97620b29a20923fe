import MipsSource.Proofs.Blames
import MipsSource.Proofs.ShortRuns
import MipsSource.Proofs.SourceMap

/-!
# What an error points at

Reading fails for three reasons: a register that is none, a number out of its range, or a number
that is too large to be worked with. `Offends d fault` says that the fault is about what stands at
`d`.

* `Parser.directive_failed`: a directive fails over a number it reads, and for want of a double only
  in a list of doubles.
* `Parser.item_blames`: every failure of an item is about something that stands ahead.
* `Program.read_error_cases`: every error of a program is about something at a true place: one of
  the three, or a place where no item can be read.
* `Program.read_points`: the errors about registers and ranges point at the register or the number.
* `Report.ofText_reports`: a text with short runs is read or reported, with one diagnostic.
-/

set_option autoImplicit false

namespace MipsSource

/-! ## Offences -/

/-- An integer of this value stands at a place. -/
def IntegerAt (d : Cursor) (value : Int) : Prop :=
  ∃ literal, Lexeme.integer? d.rest = some literal ∧ Numeral.readLiteral literal = .ok value

/-- The error for a cause at a place. -/
def errorAt (d : Cursor) (cause : Cause) : SourceError where
  cause := cause
  line := some d.line
  col := some d.col

/-- The fault is about what stands at a place. -/
inductive Offends (d : Cursor) : Fault → Prop
  /-- A register that is not resolved. -/
  | register {name : List Char} {cause : Cause} :
      Lexeme.registerName? d.rest = some name → cause.kind ∈ Register.resolveKinds →
      Register.resolve name = .error (.source { cause := cause }) →
      Offends d (.source (errorAt d cause))
  /-- An integer out of its range. -/
  | range {value lo hi : Int} (what : String) :
      IntegerAt d value → value < lo ∨ hi < value →
      Offends d (.source (errorAt d (.valueRange value what lo hi)))
  /-- A number that is too large, in a run of characters that is too long. -/
  | oversized {fault : Fault} :
      fault.sourceError? = none → ¬ Lexeme.ShortRuns d.rest → Offends d fault

/-- The fault is about what stands at a place, and not about a double: either the text is wrong, or a
number has too many digits. -/
structure Misread (d : Cursor) (fault : Fault) : Prop where
  offends : Offends d fault
  digits : fault.sourceError? = none →
    fault = .tooManyDigits ∧ ¬ Lexeme.RunsWithin (Numeral.maxDigits / 2) d.rest

/-- An integer that stands at a place has no double near it. -/
def Overflows (d : Cursor) (fault : Fault) : Prop :=
  fault = .floatOverflow ∧ ∃ value, IntegerAt d value ∧ Binary64.overflowBound ≤ value.natAbs

theorem IntegerAt.bound {d : Cursor} {value : Int} {n : Nat} (h : IntegerAt d value)
    (hs : Lexeme.RunsWithin n d.rest) : value.natAbs < Nat.pow 16 n := by
  obtain ⟨literal, hl, hv⟩ := h
  rcases Lexeme.integer?_readLiteral hl with ⟨v, hv', hb⟩ | ⟨herr, -⟩
  · rw [hv] at hv'
    cases hv'
    exact hb n hs
  · rw [hv] at herr
    cases herr

theorem Misread.source {d : Cursor} {e : SourceError} (h : Offends d (.source e)) :
    Misread d (.source e) :=
  ⟨h, nofun⟩

theorem Misread.tooManyDigits {d : Cursor} {n : Nat} (h : ¬ Lexeme.RunsWithin n d.rest)
    (hn : Numeral.maxDigits / 2 ≤ n) : Misread d .tooManyDigits := by
  have hlong : ¬ Lexeme.RunsWithin (Numeral.maxDigits / 2) d.rest := mt (·.mono hn) h
  exact ⟨.oversized rfl (mt (·.runsWithin.mono (by decide)) hlong), fun _ => ⟨rfl, hlong⟩⟩

theorem Overflows.offends {d : Cursor} {fault : Fault} (h : Overflows d fault) :
    Offends d fault := by
  obtain ⟨rfl, value, hat, hover⟩ := h
  refine .oversized rfl fun hs => ?_
  have := Binary64.lt_overflowBound (hat.bound hs.runsWithin)
  omega

/-- A failed item is not a missing one. -/
theorem Offends.cause_ne {d : Cursor} {e : SourceError} {message : String}
    (h : Offends d (.source e)) : e.cause ≠ .noItem message := by
  intro hc
  generalize hf : Fault.source e = fault at h
  cases h with
  | @register name cause _ hkind _ =>
    obtain rfl := Fault.source.inj hf
    change cause = _ at hc
    rw [hc] at hkind
    simp [Cause.kind, Register.resolveKinds] at hkind
  | range what _ _ =>
    obtain rfl := Fault.source.inj hf
    cases hc
  | oversized hnone _ =>
    rw [← hf] at hnone
    cases hnone

/-- An error in the text has the place of what it is about. -/
theorem Offends.place {d : Cursor} {e : SourceError} (h : Offends d (.source e)) :
    e.line = some d.line ∧ e.col = some d.col := by
  generalize hf : Fault.source e = fault at h
  cases h with
  | register _ _ _ => cases hf; exact ⟨rfl, rfl⟩
  | range _ _ _ => cases hf; exact ⟨rfl, rfl⟩
  | oversized hnone _ => rw [← hf] at hnone; cases hnone

/-- Values whose text is not too long. -/
theorem Numeral.isShowable_of_range {bits : Nat} (h : bits ≤ 32) :
    isShowable (Bits.range bits).1 = true ∧ isShowable (Bits.range bits).2 = true := by
  have hlo : twoPow (bits - 1) ≤ twoPow 32 := twoPow_le (by omega)
  have hhi : twoPow bits ≤ twoPow 32 := twoPow_le h
  have h32 : twoPow 32 = 4294967296 := rfl
  constructor
  · exact isShowable_of_bounds (by simp only [Bits.range]; omega) (by simp only [Bits.range]; omega)
  · exact isShowable_of_bounds (by simp only [Bits.range]; omega) (by simp only [Bits.range]; omega)

theorem Numeral.isShowable_of_count {n : Int} (hlo : 0 ≤ n) (hhi : n ≤ Directive.maxCount) :
    isShowable n = true := by
  have hmax : Directive.maxCount = 2147483647 := rfl
  exact isShowable_of_bounds (by omega) (by omega)

namespace Parser

/-! ## Words and numbers -/

section

variable {E : Cursor → Fault → Prop}

theorem word_blames (lexeme? : List Char → Option (List Char)) : (word lexeme?).Blames E :=
  .scan _

theorem spaces_blames : spaces.Blames E := word_blames _

theorem spaces1_blames : spaces1.Blames E := word_blames _

theorem identifier_blames : identifier.Blames E := word_blames _

theorem quoted_blames (body? : List Char → Option (List Char)) : (quoted body?).Blames E := by
  intro c fault h
  rcases bind_eq_failed h with hscan | ⟨body, mid, -, hvalue⟩
  · exact (Blames.scan _ : Blames _ E) _ _ hscan
  · cases hu : (Text.unescape body).map String.ofList with
    | none => rw [hu] at hvalue; cases hvalue
    | some v => rw [hu] at hvalue; cases hvalue

theorem separator_forward (word : String) : (sequence [spaces, tag word, spaces]).Forward := by
  refine Ensures.sequence fun p hp => ?_
  simp only [List.mem_cons, List.not_mem_nil, or_false] at hp
  rcases hp with rfl | rfl | rfl
  · exact spaces_forward
  · exact tag_forward word
  · exact spaces_forward

theorem separator_blames (word : String) : (sequence [spaces, tag word, spaces]).Blames E := by
  refine .sequence fun p hp => ?_
  simp only [List.mem_cons, List.not_mem_nil, or_false] at hp
  rcases hp with rfl | rfl | rfl
  · exact ⟨spaces_forward, spaces_blames⟩
  · exact ⟨tag_forward word, .tag word⟩
  · exact ⟨spaces_forward, spaces_blames⟩

theorem statementEnd_blames : statementEnd.Blames E :=
  .bind spaces_forward spaces_blames fun _ =>
    .bind (Ensures.optional (tag_forward ";")).forward (.optional (.tag ";")) fun _ => .pure _

end

theorem integerText_ensures :
    (scan fun text => (Lexeme.integer? text).map fun found => (found, found.length)).Ensures
      fun c literal _ => Lexeme.integer? c.rest = some literal := by
  refine Ensures.scan fun c v n hs => ?_
  obtain ⟨w, hw, he⟩ := Option.map_eq_some_iff.1 hs
  cases he
  exact ⟨(Lexeme.integer?_spec hw).2, hw⟩

theorem integer_ensures : integer.Ensures fun c v _ => IntegerAt c v := by
  refine .bind integerText_ensures (fun literal => .ofExcept _) ?_
  intro c literal a v b hl h
  exact ⟨literal, hl, h.1⟩

theorem integer_blames : integer.Blames Misread := by
  refine .bind_of integerText_ensures (.scan _) fun c literal a fault _ hl h => .here ?_
  have herr := ofExcept_failed h
  rcases Lexeme.integer?_readLiteral hl with ⟨v, hv, -⟩ | ⟨hmany, hlong⟩
  · rw [hv] at herr
    cases herr
  · rw [hmany] at herr
    cases herr
    exact .tooManyDigits hlong (by decide)

theorem placedInteger_places :
    placedInteger.Ensures fun c v _ => v.1 = c ∧ IntegerAt c v.2 := by
  refine .bind .position (R := fun start c v _ => v.1 = start ∧ IntegerAt c v.2)
    (fun start => ?_) ?_
  · refine .bind integer_ensures (fun value => .pure (start, value)) ?_
    intro c value a v b hv h
    obtain ⟨rfl, -⟩ := h
    exact ⟨rfl, hv⟩
  · intro c start a v b h h'
    obtain ⟨rfl, rfl⟩ := h
    exact h'

theorem placedInteger_blames : placedInteger.Blames Misread :=
  .bind Ensures.position.forward .position fun _ =>
    .bind integer_ensures.forward integer_blames fun _ => .pure _

/-- A number out of its range is at fault, or a run that is too long to show it. -/
theorem failRange_misread {α : Type} {start c : Cursor} {value : Int} {what : String}
    {range : Int × Int} {fault : Fault} (hat : IntegerAt start value)
    (hout : value < range.1 ∨ range.2 < value)
    (hshow : Numeral.isShowable range.1 = true ∧ Numeral.isShowable range.2 = true)
    (h : (failRange start value what range : Parser α) c = .failed fault) :
    Misread start fault := by
  change Reply.failed (Fault.ofCauseAt _ start.line start.col) = .failed fault at h
  rw [← Reply.failed.inj h]
  unfold Fault.ofCauseAt Fault.ofError
  simp only [Cause.numbers, List.all_cons, List.all_nil, hshow.1, hshow.2, Bool.and_true]
  split
  · exact .source (.range what hat hout)
  · rename_i hnot
    refine .tooManyDigits (fun hs => hnot ?_) (Nat.le_refl _)
    exact Numeral.isShowable_of_lt (hat.bound hs) (by decide)

/-! ## Operands -/

theorem register_blames : register.Blames Misread := by
  have hname : (scan fun text => (Lexeme.registerName? text).map fun name =>
      (name, name.length + 1)).Ensures fun c name _ =>
        Lexeme.registerName? c.rest = some name := by
    refine Ensures.scan fun c v n hs => ?_
    obtain ⟨name, hn, he⟩ := Option.map_eq_some_iff.1 hs
    cases he
    exact ⟨Lexeme.registerName?_spec hn, hn⟩
  refine .bind_of Ensures.position .position fun start _ a fault _ h hfail => ?_
  obtain ⟨rfl, rfl⟩ := h
  rcases bind_eq_failed hfail with hscan | ⟨name, mid, hscan, hres⟩
  · exact (Blames.scan _ : Blames _ Misread) _ _ hscan
  · obtain ⟨n, -, rfl, hreg⟩ := hname _ _ _ hscan
    cases hr : Register.resolve name with
    | ok r => rw [hr] at hres; cases hres
    | error f =>
      rw [hr] at hres
      cases hres
      rcases Register.resolve_error hr with ⟨cause, hkind, rfl⟩ | ⟨rfl, run, hrun, hchars, hlong⟩
      · exact .here (.source (.register hreg hkind hr))
      · have hfront := Lexeme.registerName?_front hreg
        have hin : run <:+: _ :=
          (hrun.trans (List.suffix_cons '$' name).isInfix).trans hfront.isInfix
        exact .here (.tooManyDigits (Lexeme.not_runsWithin hin hchars hlong) (by decide))

theorem immediate_blames : immediate.Blames Misread := by
  refine .bind_of placedInteger_places placedInteger_blames fun c v a fault _ h hfail => ?_
  obtain ⟨start, value⟩ := v
  obtain ⟨rfl, hat⟩ := h
  simp only at hfail hat
  split at hfail
  · cases hfail
  · rename_i hfits
    have hout := mt (Bits.fits_iff (by decide) value).2 hfits
    exact .here (failRange_misread hat (by omega) (Numeral.isShowable_of_range (by decide)) hfail)

theorem symbol_blames : symbol.Blames Misread := by
  have hoffset : (scan Lexeme.symbolOffset?).Ensures fun c v _ =>
      ∃ n, Lexeme.symbolOffset? c.rest = some (v, n) :=
    .scan fun c v n hs => ⟨Lexeme.symbolOffset?_spec hs, n, hs⟩
  refine .bind identifier_ensures.forward identifier_blames fun name => ?_
  refine .bind_of (.optional hoffset) (.optional (.scan _)) fun c found a fault _ h hfail => ?_
  rcases h with ⟨⟨mark, numeral⟩, rfl, n, hn⟩ | ⟨rfl, -⟩
  · rcases bind_eq_failed hfail with hread | ⟨_, _, -, hpure⟩
    · have herr := ofExcept_failed hread
      rcases Lexeme.symbolOffset?_readLiteral hn with ⟨v, hv⟩ | ⟨hmany, hlong⟩
      · rw [hv] at herr
        cases herr
      · rw [hmany] at herr
        cases herr
        exact .here (.tooManyDigits hlong (by decide))
    · cases hpure
  · cases hfail

theorem displacement_blames : displacement.Blames Misread := by
  refine .choice fun p hp => ?_
  simp only [List.mem_cons, List.not_mem_nil, or_false] at hp
  rcases hp with rfl | rfl
  · exact .map _ immediate_blames
  · exact .map _ symbol_blames

theorem memory_blames : memory.Blames Misread := by
  refine .bind (Ensures.optional displacement_ensures).forward (.optional displacement_blames)
    fun d => .bind (tag_forward "(") (.tag "(") fun _ => ?_
  refine .bind spaces_forward spaces_blames fun _ => .bind register_consumes.forward register_blames
    fun base => ?_
  exact .bind spaces_forward spaces_blames fun _ =>
    .bind (tag_forward ")") (.tag ")") fun _ => .pure _

theorem operand_blames : operand.Blames Misread := by
  refine .choice fun p hp => ?_
  simp only [simpleOperands, List.mem_cons, List.not_mem_nil, or_false] at hp
  rcases hp with rfl | rfl | rfl | rfl | rfl | rfl
  · exact memory_blames
  · exact .map _ register_blames
  · exact .map _ (.map _ (.scan _))
  · exact .map _ immediate_blames
  · exact .map _ (quoted_blames _)
  · exact .map _ symbol_blames

theorem placedOperand_blames : placedOperand.Blames Misread :=
  .bind Ensures.position.forward .position fun _ =>
    .bind operand_ensures.forward operand_blames fun _ => .pure _

/-! ## Directives -/

/-- The count of a repetition is an integer that stands ahead. -/
theorem repetition_places :
    repetition.Ensures fun c v n => ∃ k, k ≤ n ∧ v.1 = c.advance k ∧ IntegerAt v.1 v.2 := by
  refine .preceded (separator_forward ":") placedInteger_places ?_
  intro c _ a v b _ h
  obtain ⟨hplace, hat⟩ := h
  refine ⟨a, by omega, hplace, ?_⟩
  rw [hplace]
  exact hat

theorem repetition_blames : repetition.Blames Misread :=
  .preceded (separator_forward ":") (separator_blames ":") placedInteger_blames

theorem integerDatum_blames (what : String) {bits : Nat} (hpos : 0 < bits) (hle : bits ≤ 32) :
    (integerDatum what bits).Blames Misread := by
  refine .bind_of placedInteger_places placedInteger_blames fun c v a fault ha h hfail => ?_
  obtain ⟨start, value⟩ := v
  obtain ⟨rfl, hat⟩ := h
  simp only at hfail hat
  split at hfail
  · -- the value fits, so the fault is in the repetition after it
    refine .of_advance ha ?_
    refine Blames.bind_of (.optional repetition_places) (.optional repetition_blames) ?_ _ _ hfail
    intro c found a fault ha h hfail
    rcases h with ⟨⟨place, n⟩, rfl, k, hk, hplace, hn⟩ | ⟨rfl, -⟩
    · simp only at hfail hplace hn
      split at hfail
      · cases hfail
      · rename_i hcount
        rw [hplace] at hn hfail
        have hmax : Directive.maxCount = 2147483647 := rfl
        have hoff := failRange_misread hn (by simp only; omega)
          ⟨Numeral.isShowable_of_count (by decide) (by decide),
            Numeral.isShowable_of_count (by decide) (by decide)⟩ hfail
        exact ⟨k, by omega, hoff⟩
    · cases hfail
  · rename_i hfits
    have hout := mt (Bits.fits_iff hpos value).2 hfits
    exact .here (failRange_misread hat (by omega) (Numeral.isShowable_of_range hle) hfail)

theorem element_blames (what : String) {bits : Nat} (symbols : Bool) (hpos : 0 < bits)
    (hle : bits ≤ 32) : (element what bits symbols).Blames Misread := by
  unfold element
  split
  · exact .orElse (integerDatum_blames what hpos hle) (.map _ symbol_blames)
  · exact integerDatum_blames what hpos hle

/-- A number of a list of doubles may have no double near it. -/
theorem number_blames : number.Blames fun d fault => Misread d fault ∨ Overflows d fault := by
  refine .orElse (.map _ (.scan _)) ?_
  refine .bind_of integer_ensures (integer_blames.mono fun _ _ => .inl)
    fun c v a fault _ hat hfail => .here (.inr ?_)
  have herr := ofExcept_failed hfail
  unfold Binary64.ofInt at herr
  split at herr
  · cases herr
  · rename_i hover
    cases herr
    exact ⟨rfl, v, hat, Nat.le_of_not_lt hover⟩

theorem count_blames (what : String) : (count what).Blames Misread := by
  refine .bind_of placedInteger_places placedInteger_blames fun c v a fault _ h hfail => ?_
  obtain ⟨start, value⟩ := v
  obtain ⟨rfl, hat⟩ := h
  simp only at hfail hat
  split at hfail
  · cases hfail
  · rename_i hcount
    exact .here (failRange_misread hat (by simp only; omega)
      ⟨Numeral.isShowable_of_count (by decide) (by decide),
        Numeral.isShowable_of_count (by decide) (by decide)⟩ hfail)

/-- The bits of a list of integers, by the table of directives. -/
theorem form?_bits {name : String} {bits : Nat} {symbols : Bool}
    (h : Directive.form? name = some (.integers bits symbols)) : 0 < bits ∧ bits ≤ 32 := by
  have hmem := form?_mem h
  simp only [Directive.table, List.mem_cons, Prod.mk.injEq, reduceCtorEq, and_false,
    DirectiveForm.integers.injEq, List.not_mem_nil, or_false, false_or] at hmem
  omega

/-- **What a directive fails over**: a number that it reads. No double is wanted but in a list of
doubles. -/
theorem directiveArgs_blames {name : String} {form : DirectiveForm}
    (h : Directive.form? name = some form) :
    (directiveArgs name form).Blames fun d fault =>
      Misread d fault ∨ form = .floats ∧ Overflows d fault := by
  have hcomma : ∀ {E}, comma.Blames E := separator_blames ","
  cases form with
  | plain => exact .pure []
  | string =>
    have hstring : (preceded spaces1 string).Forward :=
      .preceded_value spaces1_forward string_consumes.forward
    exact .bind hstring (.preceded spaces1_forward spaces1_blames (quoted_blames _))
      fun _ => .pure _
  | integers bits symbols =>
    obtain ⟨hpos, hle⟩ := form?_bits h
    exact .preceded spaces1_forward spaces1_blames
      (.sepBy1 comma_forward (element_ensures name bits symbols).forward hcomma
        ((element_blames name symbols hpos hle).mono fun _ _ => .inl))
  | floats =>
    have hlist : (preceded spaces1 (sepBy1 comma number)).Forward :=
      .preceded_value spaces1_forward (Ensures.sepBy1 comma_forward number_forward).forward
    exact .bind hlist (.preceded spaces1_forward spaces1_blames
      (.sepBy1 comma_forward number_forward hcomma
        (number_blames.mono fun _ _ => Or.imp_right fun hover => ⟨rfl, hover⟩))) fun _ => .pure _
  | count =>
    have hcount : (preceded spaces1 (count name)).Forward :=
      .preceded_value spaces1_forward (count_ensures name).forward
    exact .bind hcount (.preceded spaces1_forward spaces1_blames
      ((count_blames name).mono fun _ _ => .inl)) fun _ => .pure _
  | name =>
    have hname : (preceded spaces1 identifier).Forward :=
      .preceded_value spaces1_forward identifier_ensures.forward
    exact .bind hname (.preceded spaces1_forward spaces1_blames identifier_blames) fun _ => .pure _

/-- A directive that fails has a known name, and fails over its data. -/
theorem directive_failed {c : Cursor} {fault : Fault} (h : directive c = .failed fault) :
    ∃ name form, Lexeme.directiveName? c.rest = some name ∧
      Directive.form? (String.ofList name) = some form ∧
      BlamesFrom (fun d fault => Misread d fault ∨ form = .floats ∧ Overflows d fault) c fault := by
  have hword : (word Lexeme.directiveName?).Ensures fun c v _ =>
      ∃ name, Lexeme.directiveName? c.rest = some name ∧ v = String.ofList name := by
    refine Ensures.scan fun c v n hs => ?_
    obtain ⟨name, hn, he⟩ := Option.map_eq_some_iff.1 hs
    cases he
    exact ⟨(Lexeme.directiveName?_spec hn).2, name, hn, rfl⟩
  -- neither reading the name nor looking it up fails, so the data did
  rcases bind_eq_failed h with hnone | ⟨v, mid, hmatched, hrest⟩
  · obtain ⟨_, _, hno⟩ := word_blames (E := fun _ _ => False) _ _ _ hnone
    exact hno.elim
  obtain ⟨n, hn, rfl, name, hname, rfl⟩ := hword _ _ _ hmatched
  rcases bind_eq_failed hrest with hnone | ⟨form, after, hmatched', hargs⟩
  · obtain ⟨_, _, hno⟩ := Blames.ofOption (E := fun _ _ => False) _ _ _ hnone
    exact hno.elim
  obtain ⟨m, hm, rfl, hform, -⟩ := Ensures.ofOption _ _ _ _ hmatched'
  refine ⟨name, form, hname, hform, .of_advance hn (.of_advance hm ?_)⟩
  refine (Blames.bind (directiveArgs_ensures hform).forward (directiveArgs_blames hform)
    fun args => ?_) _ _ hargs
  exact .bind statementEnd_forward statementEnd_blames fun _ => .pure _

theorem directive_blames : directive.Blames Offends := by
  intro c fault h
  obtain ⟨_, _, -, -, n, hn, hwhy⟩ := directive_failed h
  exact ⟨n, hn, hwhy.elim Misread.offends fun hover => hover.2.offends⟩

/-! ## Items -/

theorem instruction_blames : instruction.Blames Offends := by
  have hcomma : comma.Blames Offends := separator_blames ","
  have hlist : (sepBy1 comma placedOperand).Blames Offends :=
    .sepBy1 comma_forward placedOperand_ensures.forward hcomma
      (placedOperand_blames.mono fun _ _ => Misread.offends)
  refine .bind Ensures.position.forward .position fun start => ?_
  refine .bind identifier_ensures.forward identifier_blames fun mnemonic => ?_
  refine .bind operandList_ensures.forward
    (.withDefault [] (.preceded spaces1_forward spaces1_blames hlist)) fun operands => ?_
  exact .bind statementEnd_forward statementEnd_blames fun _ => .pure _

/-- **A failure of an item** is about a register or a number that stands ahead. -/
theorem item_blames : item.Blames Offends := by
  refine .choice fun p hp => ?_
  simp only [List.mem_cons, List.not_mem_nil, or_false] at hp
  rcases hp with rfl | rfl | rfl
  · exact .map _ (.scan _)
  · exact .map _ directive_blames
  · exact .map _ instruction_blames

theorem placedItem_blames : placedItem.Blames Offends :=
  .bind blanks_forward (.scan _) fun _ => .bind Ensures.position.forward .position fun _ =>
    .bind item_ensures.forward item_blames fun _ => .pure _

end Parser

namespace Program

/-! ## Programs -/

/-- **What an error of a program is about**: a register or a number at a true place, or a true place
where no item can be read. -/
theorem read_error_cases {text : List Char} {fault : Fault}
    (h : read (.start text) = .error fault) :
    ∃ k, k ≤ text.length ∧
      (fault = .source (expectedItem (.atOffset text k)) ∨ Offends (.atOffset text k) fault) := by
  rw [Cursor.start_eq_atOffset] at h
  have hzero : ∀ {n}, n ≤ (Cursor.atOffset text 0).rest.length → 0 + n ≤ text.length := by simp
  cases hc : Parser.collect Parser.placedItem (.atOffset text 0) with
  | error g =>
    rw [read_of_collect_error hc] at h
    cases h
    obtain ⟨n, hn, ho⟩ := Parser.collect_blames Parser.placedItem_forward
      Parser.placedItem_blames hc
    rw [Cursor.atOffset_advance (hzero hn)] at ho
    exact ⟨_, hzero hn, .inr ho⟩
  | ok result =>
    obtain ⟨items, after⟩ := result
    obtain ⟨n, hn, rfl, -⟩ := Parser.collect_chain Parser.placedItem_forward hc
    have hblank := Lexeme.blankLength_le false (text.drop (0 + n))
    rw [List.length_drop] at hblank
    have hle := hzero hn
    rw [read_of_collect hc, Cursor.atOffset_advance hle, skipBlanks_atOffset hle] at h
    split at h
    · cases h
    · cases h
      exact ⟨_, by omega, .inl rfl⟩

/-- The error points at a register that is not resolved, for the same reason. -/
def PointsAtRegister (text : List Char) (e : SourceError) : Prop :=
  ∃ k name e₀, e.line = some (Text.lineAt text k) ∧ e.col = some (Text.colAt text k) ∧
    text[k]? = some '$' ∧ Lexeme.registerName? (text.drop k) = some name ∧
    Register.resolve name = .error (.source e₀) ∧ e₀.cause = e.cause ∧ e₀.hint = e.hint

/-- The error points at an integer of this value that lies outside a range, and names the range. -/
def PointsAtRange (text : List Char) (e : SourceError) (value lo hi : Int) : Prop :=
  ∃ k literal, e.line = some (Text.lineAt text k) ∧ e.col = some (Text.colAt text k) ∧
    Lexeme.integer? (text.drop k) = some literal ∧ Numeral.readLiteral literal = .ok value ∧
    e.hint = some ("rango permitido: " ++ Numeral.text lo ++ ".." ++ Numeral.text hi) ∧
    (value < lo ∨ hi < value)

/-- **Errors about registers and ranges point at what they are about.** -/
theorem read_points {text : List Char} {e : SourceError}
    (h : read (.start text) = .error (.source e)) :
    (e.cause.isRegister = true → PointsAtRegister text e) ∧
      ∀ value what lo hi, e.cause = .valueRange value what lo hi →
        PointsAtRange text e value lo hi := by
  obtain ⟨k, hk, he | ho⟩ := read_error_cases h
  · -- an item was expected: this cause is of neither kind
    cases he
    constructor
    · intro hr
      cases hr
    · intro value what lo hi hv
      cases hv
  · generalize hf : Fault.source e = fault at ho
    cases ho with
    | @register name cause hname hkind hres =>
      obtain rfl := Fault.source.inj hf
      constructor
      · intro _
        obtain ⟨tail, ht⟩ := Lexeme.registerName?_front hname
        have hdollar : text[k]? = some '$' := by
          have hhead := congrArg List.head? ht
          simpa using hhead.symm
        exact ⟨k, name, _, rfl, rfl, hdollar, hname, hres, rfl, rfl⟩
      · intro value what lo hi hv
        change cause = _ at hv
        rw [hv] at hkind
        simp [Cause.kind, Register.resolveKinds] at hkind
    | @range value lo hi what hat hout =>
      obtain rfl := Fault.source.inj hf
      obtain ⟨literal, hl, hv⟩ := hat
      constructor
      · intro hr
        cases hr
      · intro value' what' lo' hi' hc
        cases hc
        exact ⟨k, literal, rfl, rfl, hl, hv, rfl, hout⟩
    | oversized hnone _ =>
      rw [← hf] at hnone
      cases hnone

/-- A register outside its family, in parentheses, and a repetition of no times. -/
theorem read_points_family_repetition :
    (∃ e, read (.start "main:\n  lw $t0, 4( $t12)".toList) = .error (.source e) ∧
        e.cause.isRegister = true ∧
        PointsAtRegister "main:\n  lw $t0, 4( $t12)".toList e) ∧
      ∃ e, read (.start ".byte 1 : 2, 3 : 0".toList) = .error (.source e) ∧
        PointsAtRange ".byte 1 : 2, 3 : 0".toList e 0 1 2147483647 := by
  have hfamily : read (.start "main:\n  lw $t0, 4( $t12)".toList) =
      .error (.source { cause := .familyIndex "t" 12, line := some 2, col := some 14 }) := by
    decide +kernel
  have hrepetition : read (.start ".byte 1 : 2, 3 : 0".toList) =
      .error (.source { cause := .valueRange 0 "una repetición" 1 2147483647, line := some 1,
                        col := some 18 }) := by
    decide +kernel
  exact ⟨⟨_, hfamily, rfl, (read_points hfamily).1 rfl⟩,
    ⟨_, hrepetition, (read_points hrepetition).2 _ _ _ _ rfl⟩⟩

end Program

namespace Report

/-- The kinds of errors that reading a text reports. -/
def errorKinds : List String :=
  ["syntax", "value-range", "unknown-register", "named-register-range", "num-register-range"]

/-- An error that is reported as it should be: it has a place, no file yet, and a known kind. -/
structure Reportable (e : SourceError) : Prop where
  line : e.line.isSome = true
  col : e.col.isSome = true
  file : e.file = none
  kind : e.cause.kind ∈ errorKinds

/-- **In a text with short runs every fault is an error with a place.** -/
theorem read_error_reportable {text : List Char} {fault : Fault} (hs : Lexeme.ShortRuns text)
    (h : Program.read (.start text) = .error fault) : ∃ e, fault = .source e ∧ Reportable e := by
  obtain ⟨k, -, he | ho⟩ := Program.read_error_cases h
  · exact ⟨_, he, rfl, rfl, rfl, by simp [Program.expectedItem, Cause.kind, errorKinds]⟩
  · cases ho with
    | @register name cause hname hkind hres =>
      refine ⟨_, rfl, rfl, rfl, rfl, ?_⟩
      change cause.kind ∈ errorKinds
      simp only [Register.resolveKinds, List.mem_cons, List.not_mem_nil, or_false] at hkind
      rcases hkind with hkind | hkind | hkind <;> simp [hkind, errorKinds]
    | range what hat hout =>
      exact ⟨_, rfl, rfl, rfl, rfl, by simp [errorAt, Cause.kind, errorKinds]⟩
    | oversized hnone hlong => exact absurd (hs.drop k) hlong

/-- **A text with short runs is read, or reported with one diagnostic**, which is an error with a
place, names the file and has a known kind. -/
theorem ofText_reports {text : List Char} {w : Int} (file : Option String)
    (hlo : -2147483648 ≤ w) (hhi : w ≤ 2147483647)
    (hruns : ∀ expanded, Text.expandTabs w text = .ok expanded → Lexeme.ShortRuns expanded) :
    (∃ p, ofText text file w = .ok { program := some p, diagnostics := [] }) ∨
      ∃ d, ofText text file w = .ok { program := none, diagnostics := [d] } ∧
        d.severity = .error ∧ d.line.isSome = true ∧ d.col.isSome = true ∧ d.file = file ∧
        ∃ kind, d.kind = some kind ∧ kind ∈ errorKinds := by
  have hw : Text.tabWidthOk w = true := by
    simp only [Text.tabWidthOk, Bool.and_eq_true, decide_eq_true_eq]
    exact ⟨hlo, hhi⟩
  have hshort : Lexeme.ShortRuns (Text.expandTabsFrom w.toNat 0 text) :=
    hruns _ (by rw [Text.expandTabs, if_pos hw])
  rw [ofText, Program.ofText_of_tabWidth hw]
  cases hr : Program.read (.start (Text.expandTabsFrom w.toNat 0 text)) with
  | ok p => exact .inl ⟨p, rfl⟩
  | error fault =>
    obtain ⟨e, rfl, he⟩ := read_error_reportable hshort hr
    refine .inr ⟨(e.locate none none file).diagnostic, rfl, rfl, ?_⟩
    have hlocate : e.locate none none file = { e with file := file } := by
      simp [SourceError.locate, he.file]
    rw [hlocate]
    exact ⟨he.line, he.col, rfl, _, rfl, he.kind⟩

/-- A text with an error: a number out of range, after a tab. -/
theorem ofText_reports_range :
    (∀ expanded, Text.expandTabs 4 ".byte\t256".toList = .ok expanded →
        Lexeme.ShortRuns expanded) ∧
      ofText ".byte\t256".toList (some "a.s") 4 = .ok
        { program := none
          diagnostics := [{ severity := .error
                            message := "Valor 256 fuera de rango para .byte"
                            line := some 1, col := some 9
                            hint := some "rango permitido: -128..255"
                            file := some "a.s", kind := some "value-range" }] } ∧
      ((∃ p, ofText ".byte\t256".toList (some "a.s") 4 =
          .ok { program := some p, diagnostics := [] }) ∨
        ∃ d, ofText ".byte\t256".toList (some "a.s") 4 =
            .ok { program := none, diagnostics := [d] } ∧
          d.severity = .error ∧ d.line.isSome = true ∧ d.col.isSome = true ∧
          d.file = some "a.s" ∧ ∃ kind, d.kind = some kind ∧ kind ∈ errorKinds) := by
  have hruns : ∀ expanded, Text.expandTabs 4 ".byte\t256".toList = .ok expanded →
      Lexeme.ShortRuns expanded := by
    intro expanded he
    have hlen : (Text.expandTabs 4 ".byte\t256".toList).toOption.map List.length = some 11 := by
      decide +kernel
    rw [he] at hlen
    have heleven : expanded.length = 11 := Option.some.inj hlen
    exact Lexeme.RunsWithin.of_length (by omega)
  exact ⟨hruns, by decide +kernel, ofText_reports _ (by decide) (by decide) hruns⟩

end Report

end MipsSource
