import MipsSource.Proofs.Coupled
import MipsSource.Proofs.ItemSpec

/-!
# Items in two runs

A coupling is `Lexical` if every lexeme gives the same value in both runs, if faults that know no
place belong together, and if they still do when each run has given them its own place. Then items
are read alike in both runs, and their columns agree as far as `column` tells them apart:

* `Fault.Unplaced`: numbers and registers fail without knowing a place.
* `Parser.item_coupled`: from coupled places the same item is read, but for columns, or both runs
  end with faults that belong together.
-/

set_option autoImplicit false

namespace MipsSource

/-! ## Faults without a place -/

namespace Fault

/-- The fault has no place yet. -/
def Unplaced (fault : Fault) : Prop :=
  ∀ e, fault = .source e → e.line = none

theorem unplaced_ofCause (cause : Cause) : (ofCause cause).Unplaced := by
  intro e h
  rw [ofCause, ofError] at h
  split at h
  · cases h
    rfl
  · cases h

/-- The fault for a cause at a place is the fault for the cause, which is then given the place. -/
theorem ofCauseAt_eq_locate (cause : Cause) (line col : Int) :
    ofCauseAt cause line col = (ofCause cause).locate (some line) (some col) none := by
  simp only [ofCauseAt, ofCause, ofError]
  split <;> rfl

end Fault

theorem Numeral.readDigits_unplaced {base : Nat} {text : List Char} {fault : Fault}
    (h : readDigits base text = .error fault) : fault.Unplaced := by
  unfold readDigits at h
  rintro e rfl
  split at h
  · cases h
  · split at h <;> cases h

theorem Numeral.readDecimal_unplaced {text : List Char} {fault : Fault}
    (h : readDecimal text = .error fault) : fault.Unplaced := by
  simp only [readDecimal] at h
  cases hr : readDigits 10 (parts text).2 with
  | ok n => rw [hr] at h; cases h
  | error f => rw [hr] at h; cases h; exact readDigits_unplaced hr

theorem Numeral.readLiteral_unplaced {text : List Char} {fault : Fault}
    (h : readLiteral text = .error fault) : fault.Unplaced := by
  simp only [readLiteral] at h
  split at h
  · unfold readMarked at h
    split at h
    · rename_i negative mark digits _
      split at h
      · rename_i base _
        cases hr : readDigits base (afterMark digits) with
        | ok n => rw [hr] at h; cases h
        | error f => rw [hr] at h; cases h; exact readDigits_unplaced hr
      · cases h
        intro e he
        cases he
    · cases h
      intro e he
      cases he
  · exact readDecimal_unplaced h

theorem Register.int32?_unplaced {text : List Char} {fault : Fault}
    (h : int32? text = .error fault) : fault.Unplaced := by
  rw [int32?] at h
  split at h
  · cases hr : Numeral.readDecimal text with
    | ok n => rw [hr] at h; cases h
    | error f => rw [hr] at h; cases h; exact Numeral.readDecimal_unplaced hr
  · cases h

/-- The faults that name a cause have no place. -/
theorem unplaced_of_error {α : Type} {cause : Cause} {fault : Fault}
    (h : (.error (.ofCause cause) : Except Fault α) = .error fault) : fault.Unplaced := by
  rw [← Except.error.inj h]
  exact Fault.unplaced_ofCause cause

theorem Register.unresolved_unplaced {text : List Char} {fault : Fault}
    (h : unresolved text = .error fault) : fault.Unplaced := by
  cases text with
  | nil => exact unplaced_of_error h
  | cons letter digits =>
    simp only [unresolved] at h
    split at h
    · cases hr : int32? digits with
      | error f =>
        rw [hr] at h
        rw [← Except.error.inj h]
        exact int32?_unplaced hr
      | ok index =>
        rw [hr] at h
        cases index with
        | none => exact unplaced_of_error h
        | some n => exact unplaced_of_error h
    · exact unplaced_of_error h

/-- **Resolving a register** does not know places. -/
theorem Register.resolve_unplaced {text : List Char} {fault : Fault}
    (h : resolve text = .error fault) : fault.Unplaced := by
  unfold resolve at h
  cases hr : int32? text with
  | error f =>
    rw [hr] at h
    rw [← Except.error.inj h]
    exact int32?_unplaced hr
  | ok number =>
    rw [hr] at h
    cases number with
    | some n =>
      change ofNumber n = .error fault at h
      unfold ofNumber at h
      split at h
      · cases h
      · exact unplaced_of_error h
    | none =>
      simp only [bind, Except.bind] at h
      split at h
      · cases h
      · exact unresolved_unplaced h

theorem Binary64.ofInt_unplaced {i : Int} {fault : Fault} (h : ofInt i = .error fault) :
    fault.Unplaced := by
  unfold ofInt at h
  split at h
  · cases h
  · rintro e rfl
    cases h

/-! ## Columns -/

/-- The instruction with its columns changed by `f`. -/
def Instruction.mapColumns (f : Int → Int) (i : Instruction) : Instruction where
  mnemonic := i.mnemonic
  operands := i.operands.map fun placed => (placed.1, f placed.2)
  col := f i.col

/-- The item with its columns changed by `f`. -/
def Item.mapColumns (f : Int → Int) : Item → Item
  | .instruction i => .instruction (i.mapColumns f)
  | item => item

@[simp]
theorem Item.mapColumns_id (i : Item) : i.mapColumns id = i := by
  cases i <;> simp [mapColumns, Instruction.mapColumns]

/-! ## Lexical couplings -/

/-- All lexemes give the same value from coupled places, but for the spaces themselves, and what two
runs make of coupled places belongs together: the columns under `column`, and the faults. -/
structure Coupling.Lexical (R : Coupling) (column : Int → Int) : Prop where
  within : R.Within
  column : ∀ c d, R.place c d → column c.col = column d.col
  unplaced : ∀ fault : Fault, fault.Unplaced → R.fault fault fault
  located : ∀ c d, R.place c d → ∀ fault : Fault, fault.Unplaced →
    R.fault (fault.locate (some c.line) (some c.col) none)
      (fault.locate (some d.line) (some d.col) none)
  tag : ∀ word ∈ [";", ",", ":", "(", ")"], Parser.Respects R (Parser.tag word)
  spaces : Parser.Coupled R (fun _ _ => True) Parser.spaces Parser.spaces
  spaces1 : Parser.Coupled R (fun _ _ => True) Parser.spaces1 Parser.spaces1
  identifier : Parser.Respects R Parser.identifier
  directiveName : Parser.Respects R (Parser.word Lexeme.directiveName?)
  label : Parser.Respects R Parser.label
  registerName : Parser.Respects R (Parser.scan fun text =>
    (Lexeme.registerName? text).map fun name => (name, name.length + 1))
  integer : Parser.Respects R (Parser.scan fun text =>
    (Lexeme.integer? text).map fun found => (found, found.length))
  symbolOffset : Parser.Respects R (Parser.scan Lexeme.symbolOffset?)
  decimal : Parser.Respects R (Parser.scan Lexeme.decimal?)
  character : Parser.Respects R (Parser.scan fun text =>
    (Lexeme.character? text).map fun body => (body, body.length + 2))
  string : Parser.Respects R (Parser.scan fun text =>
    (Lexeme.string? text).map fun body => (body, body.length + 2))

namespace Parser

variable {R : Coupling} {column : Int → Int} (hR : R.Lexical column)
include hR

/-! ## Numbers and separators -/

theorem integer_coupled : Respects R integer :=
  hR.integer.bind fun _ => .ofExcept fun fault h =>
    hR.unplaced fault (Numeral.readLiteral_unplaced h)

theorem float_coupled : Respects R float :=
  hR.decimal.map _

/-- An integer with its place: the same integer, at coupled places. -/
theorem placedInteger_coupled :
    Coupled R (fun v w => R.place v.1 w.1 ∧ v.2 = w.2) placedInteger placedInteger := by
  refine Coupled.bind .position fun start start' hs => ?_
  refine Coupled.bind (integer_coupled hR) fun v w hv => ?_
  exact .pure ⟨hs, hv⟩

/-- A number that does not fit fails at its own place. -/
theorem failRange_coupled {α : Type} {start start' : Cursor} (hs : R.place start start')
    (value : Int) (what : String) (range : Int × Int) :
    Coupled R Eq (failRange start value what range : Parser α)
      (failRange start' value what range) := by
  refine .fail ?_
  rw [Fault.ofCauseAt_eq_locate, Fault.ofCauseAt_eq_locate]
  exact hR.located start start' hs _ (Fault.unplaced_ofCause _)

theorem separator_coupled {word : String} (h : word ∈ [";", ",", ":", "(", ")"]) :
    Coupled R (fun _ _ => True) (sequence [spaces, tag word, spaces])
      (sequence [spaces, tag word, spaces]) := by
  refine (Coupled.sequence (V := fun _ _ => True) fun p hp => ?_).mono fun _ _ _ => trivial
  simp only [List.mem_cons, List.not_mem_nil, or_false] at hp
  rcases hp with rfl | rfl | rfl
  · exact hR.spaces
  · exact (hR.tag word h).mono fun _ _ _ => trivial
  · exact hR.spaces

theorem statementEnd_coupled : Respects R statementEnd :=
  Coupled.bind hR.spaces fun _ _ _ =>
    (Respects.optional (hR.tag ";" (by simp))).bind fun _ => .pure ()

/-- A list with commas gives lists of values that belong together one by one. -/
theorem commaList_coupled {α : Type} {V : α → α → Prop} {p : Parser α} (hf : p.Forward)
    (hp : Coupled R V p p) :
    Coupled R (List.Forall₂ V) (preceded spaces1 (sepBy1 comma p))
      (preceded spaces1 (sepBy1 comma p)) :=
  hR.spaces1.preceded
    (.sepBy1 hR.within comma_consumes hf (separator_coupled hR (by simp)) hp)

/-- A list with commas of values that are the same. -/
theorem commaList_respects {α : Type} {p : Parser α} (hf : p.Forward) (hp : Respects R p) :
    Respects R (preceded spaces1 (sepBy1 comma p)) :=
  (commaList_coupled hR hf hp).mono fun _ _ h => List.forall₂_eq_eq_eq ▸ h

/-! ## Operands -/

theorem register_coupled : Respects R register := by
  refine Coupled.bind .position fun start start' hs => Coupled.bind hR.registerName ?_
  rintro name _ rfl
  cases hr : Register.resolve name with
  | ok r => exact .pure rfl
  | error fault => exact .fail (hR.located start start' hs fault (Register.resolve_unplaced hr))

theorem immediate_coupled : Respects R immediate := by
  refine Coupled.bind (placedInteger_coupled hR) ?_
  rintro ⟨start, value⟩ ⟨start', _⟩ ⟨hs, rfl⟩
  simp only
  split
  · exact .pure rfl
  · exact failRange_coupled hR hs _ _ _

theorem symbol_coupled : Respects R symbol := by
  refine hR.identifier.bind fun name => hR.symbolOffset.optional.bind fun found => ?_
  cases found with
  | none => exact .pure _
  | some found =>
    exact (Respects.ofExcept fun fault h =>
      hR.unplaced fault (Numeral.readLiteral_unplaced h)).bind fun _ => .pure _

theorem displacement_coupled : Respects R displacement := by
  refine Coupled.choice fun p hp => ?_
  simp only [List.mem_cons, List.not_mem_nil, or_false] at hp
  rcases hp with rfl | rfl
  · exact (immediate_coupled hR).map _
  · exact (symbol_coupled hR).map _

theorem memory_coupled : Respects R memory := by
  refine (displacement_coupled hR).optional.bind fun d => ?_
  refine (hR.tag "(" (by simp)).bind fun _ => ?_
  refine Coupled.bind hR.spaces fun _ _ _ => ?_
  refine (register_coupled hR).bind fun base => ?_
  refine Coupled.bind hR.spaces fun _ _ _ => ?_
  exact (hR.tag ")" (by simp)).bind fun _ => .pure _

theorem operand_coupled : Respects R operand := by
  refine Coupled.choice fun p hp => ?_
  simp only [simpleOperands, List.mem_cons, List.not_mem_nil, or_false] at hp
  rcases hp with rfl | rfl | rfl | rfl | rfl | rfl
  · exact memory_coupled hR
  · exact (register_coupled hR).map _
  · exact (float_coupled hR).map _
  · exact (immediate_coupled hR).map _
  · exact (hR.character.bind fun _ => .ofOption _).map _
  · exact (symbol_coupled hR).map _

/-- The same operand, in columns that agree. -/
theorem placedOperand_coupled :
    Coupled R (fun v w => (v.1, column v.2) = (w.1, column w.2)) placedOperand placedOperand := by
  refine Coupled.bind .position fun start start' hs => Coupled.bind (operand_coupled hR) ?_
  rintro value _ rfl
  refine .pure ?_
  rw [hR.column start start' hs]

/-! ## Directives -/

theorem repetition_coupled :
    Coupled R (fun v w => R.place v.1 w.1 ∧ v.2 = w.2) repetition repetition :=
  (separator_coupled hR (by simp)).preceded (placedInteger_coupled hR)

theorem integerDatum_coupled (what : String) (bits : Nat) :
    Respects R (integerDatum what bits) := by
  refine Coupled.bind (placedInteger_coupled hR) ?_
  rintro ⟨start, value⟩ ⟨start', _⟩ ⟨hs, rfl⟩
  simp only
  split
  · refine Coupled.bind (repetition_coupled hR).optional fun found found' hfound => ?_
    cases hfound with
    | none => exact .pure rfl
    | @some first second hpair =>
      obtain ⟨countStart, count⟩ := first
      obtain ⟨countStart', count'⟩ := second
      obtain ⟨hplace, hcount⟩ := hpair
      simp only at hcount
      subst hcount
      simp only
      split
      · exact .pure rfl
      · exact failRange_coupled hR hplace _ _ _
  · exact failRange_coupled hR hs _ _ _

theorem element_coupled (what : String) (bits : Nat) (symbols : Bool) :
    Respects R (element what bits symbols) := by
  unfold element
  split
  · exact Coupled.orElse (integerDatum_coupled hR what bits) ((symbol_coupled hR).map _)
  · exact integerDatum_coupled hR what bits

theorem number_coupled : Respects R number :=
  Coupled.orElse (float_coupled hR) ((integer_coupled hR).bind fun _ =>
    .ofExcept fun fault h => hR.unplaced fault (Binary64.ofInt_unplaced h))

theorem count_coupled (what : String) : Respects R (count what) := by
  refine Coupled.bind (placedInteger_coupled hR) ?_
  rintro ⟨start, value⟩ ⟨start', _⟩ ⟨hs, rfl⟩
  simp only
  split
  · exact .pure rfl
  · exact failRange_coupled hR hs _ _ _

theorem directiveArgs_coupled (name : String) (form : DirectiveForm) :
    Respects R (directiveArgs name form) := by
  have hafter : ∀ {α : Type} {p : Parser α}, Respects R p → Respects R (preceded spaces1 p) :=
    fun hp => Coupled.preceded hR.spaces1 hp
  cases form with
  | plain => exact .pure []
  | string => exact (hafter (hR.string.bind fun _ => .ofOption _)).bind fun _ => .pure _
  | integers bits symbols =>
    exact commaList_respects hR (element_ensures name bits symbols).forward
      (element_coupled hR name bits symbols)
  | floats => exact (commaList_respects hR number_forward (number_coupled hR)).bind fun _ => .pure _
  | count => exact (hafter (count_coupled hR name)).bind fun _ => .pure _
  | name => exact (hafter hR.identifier).bind fun _ => .pure _

theorem directive_coupled : Respects R directive := by
  refine hR.directiveName.bind fun name => (Respects.ofOption _).bind fun form => ?_
  refine (directiveArgs_coupled hR name form).bind fun args => ?_
  exact (statementEnd_coupled hR).bind fun _ => .pure _

/-! ## Items -/

theorem instruction_coupled :
    Coupled R (fun i j => i.mapColumns column = j.mapColumns column) instruction instruction := by
  have hlist := (commaList_coupled hR placedOperand_ensures.forward
    (placedOperand_coupled hR)).withDefault .nil
  refine Coupled.bind .position fun start start' hs => ?_
  refine Coupled.bind hR.identifier ?_
  rintro mnemonic _ rfl
  refine Coupled.bind hlist fun operands operands' hoperands => ?_
  refine Coupled.bind (statementEnd_coupled hR) fun _ _ _ => .pure ?_
  have hmap : operands.map (fun placed => (placed.1, column placed.2)) =
      operands'.map fun placed => (placed.1, column placed.2) := by
    rw [← List.forall₂_eq_eq_eq, List.forall₂_map_left_iff, List.forall₂_map_right_iff]
    exact hoperands
  simp only [Instruction.mapColumns, hmap, hR.column start start' hs]

/-- **Items in two runs.** From coupled places the same item is read, in columns that agree, or both
runs end with faults that belong together. -/
theorem item_coupled :
    Coupled R (fun i j => i.mapColumns column = j.mapColumns column) item item := by
  refine .choice fun p hp => ?_
  simp only [List.mem_cons, List.not_mem_nil, or_false] at hp
  rcases hp with rfl | rfl | rfl
  · refine Coupled.map hR.label ?_
    rintro name _ rfl
    rfl
  · refine Coupled.map (directive_coupled hR) ?_
    rintro d _ rfl
    rfl
  · refine (instruction_coupled hR).map fun i j h => ?_
    exact congrArg Item.instruction h

end Parser

end MipsSource
