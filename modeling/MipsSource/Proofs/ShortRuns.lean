import MipsSource.Proofs.Numerals
import MipsSource.Register.Resolve

/-!
# Texts with short runs

In a text that has few letters, digits and underscores in a row, every number can be read and
shown, and with at most 255 of them in a row it can be rounded too. What prevents it, if anything
does, is a run that is too long:

* `Lexeme.integer?_readLiteral`, `Lexeme.symbolOffset?_readLiteral`: an integer or an offset has a
  value, and the runs of the text bound it.
* `Register.resolve_error`: why a register is not resolved.
-/

set_option autoImplicit false

namespace MipsSource

/-! ## Runs -/

namespace Lexeme

/-- No more than `n` letters, digits and underscores stand in a row. -/
def RunsWithin (n : Nat) (text : List Char) : Prop :=
  ∀ run, run <:+: text → (∀ c ∈ run, isNameChar c = true) → run.length ≤ n

theorem RunsWithin.mono {m n : Nat} {text : List Char} (h : RunsWithin m text) (hmn : m ≤ n) :
    RunsWithin n text :=
  fun run hrun hname => Nat.le_trans (h run hrun hname) hmn

theorem RunsWithin.drop {n : Nat} {text : List Char} (h : RunsWithin n text) (k : Nat) :
    RunsWithin n (text.drop k) :=
  fun run hrun => h run (hrun.trans (List.drop_suffix k text).isInfix)

theorem RunsWithin.of_length {n : Nat} {text : List Char} (h : text.length ≤ n) :
    RunsWithin n text :=
  fun _ hrun _ => Nat.le_trans hrun.length_le h

theorem not_runsWithin {n : Nat} {text run : List Char} (hrun : run <:+: text)
    (hname : ∀ c ∈ run, isNameChar c = true) (hlen : n < run.length) : ¬ RunsWithin n text :=
  fun h => Nat.not_lt.2 (h run hrun hname) hlen

/-- No more than 255 letters, digits and underscores stand in a row. -/
def ShortRuns (text : List Char) : Prop :=
  RunsWithin 255 text

theorem ShortRuns.runsWithin {text : List Char} (h : ShortRuns text) : RunsWithin 255 text := h

theorem ShortRuns.drop {text : List Char} (h : ShortRuns text) (n : Nat) :
    ShortRuns (text.drop n) :=
  RunsWithin.drop h n

/-- An integer is a sign and a numeral, and stands at the front of the text. -/
theorem integer?_parts {text literal : List Char} (h : integer? text = some literal) :
    ∃ mark word, literal = mark ++ word ∧ Numeral.IsMark mark ∧ isNumeral word = true ∧
      literal <+: text := by
  simp only [integer?] at h
  split at h
  · rename_i hw
    cases h
    exact ⟨_, _, rfl, Numeral.isMark_sign text, hw, sign_append_front isWordChar text⟩
  · cases h

/-- **An integer has a value**, and the runs of the text bound it; what has none has too many
digits, and the text has a run that is too long. -/
theorem integer?_readLiteral {text literal : List Char} (h : integer? text = some literal) :
    (∃ v : Int, Numeral.readLiteral literal = .ok v ∧
        ∀ n, RunsWithin n text → v.natAbs < Nat.pow 16 n) ∨
      (Numeral.readLiteral literal = .error .tooManyDigits ∧
        ¬ RunsWithin Numeral.maxDigits text) := by
  obtain ⟨mark, word, rfl, hm, hw, hfront⟩ := integer?_parts h
  have hname := Numeral.nameChars_of_isNumeral hw
  have hrun : word <:+: text := (List.suffix_append mark word).isInfix.trans hfront.isInfix
  rcases Numeral.readLiteral_numeral hm hw with ⟨v, hv, hlt⟩ | ⟨herr, hlong⟩
  · refine .inl ⟨v, hv, fun n hshort => ?_⟩
    have hlen := hshort word hrun hname
    exact Nat.lt_of_lt_of_le hlt (Nat.pow_le_pow_right (by decide) hlen)
  · exact .inr ⟨herr, not_runsWithin hrun hname hlong⟩

/-- The offset of a symbol is a numeral, and stands in the text. -/
theorem symbolOffset?_parts {text : List Char} {found : Char × List Char} {n : Nat}
    (h : symbolOffset? text = some (found, n)) :
    isOffset found.2 = true ∧ found.2 <:+: text := by
  simp only [symbolOffset?] at h
  split at h
  · rename_i mark rest hr
    split at h
    · rename_i hc
      cases h
      have hrest : rest <:+ text := by
        have hcons : mark :: rest <:+ text := by
          rw [← hr]
          exact List.drop_suffix _ _
        exact (List.suffix_cons mark rest).trans hcons
      exact ⟨(Bool.and_eq_true_iff.1 hc).2, (List.takeWhile_prefix _).isInfix.trans
        ((List.drop_suffix _ rest).trans hrest).isInfix⟩
    · cases h
  · cases h

/-- The offset of a symbol has a value, or the text has a run that is too long. -/
theorem symbolOffset?_readLiteral {text word : List Char} {mark : Char} {n : Nat}
    (h : symbolOffset? text = some ((mark, word), n)) :
    (∃ v : Int, Numeral.readLiteral word = .ok v) ∨
      (Numeral.readLiteral word = .error .tooManyDigits ∧
        ¬ RunsWithin Numeral.maxDigits text) := by
  obtain ⟨hoffset, hrun⟩ := symbolOffset?_parts h
  have hw := Numeral.isNumeral_of_isOffset hoffset
  rcases Numeral.readLiteral_numeral (.inl rfl) hw with ⟨v, hv, -⟩ | ⟨herr, hlong⟩
  · exact .inl ⟨v, hv⟩
  · exact .inr ⟨herr, not_runsWithin hrun (Numeral.nameChars_of_isNumeral hw) hlong⟩

end Lexeme

/-! ## Bounds -/

theorem pow_sixteen_eq (n : Nat) : Nat.pow 16 n = twoPow (4 * n) :=
  (Nat.pow_mul 2 4 n).symm

theorem pow_sixteen_le (n : Nat) : Nat.pow 16 n ≤ tenPow (2 * n) :=
  calc Nat.pow 16 n ≤ Nat.pow 100 n := Nat.pow_le_pow_left (by decide) n
    _ = tenPow (2 * n) := (Nat.pow_mul 10 2 n).symm

/-- A number with half as many digits to base 16 as are shown is shown. -/
theorem Numeral.isShowable_of_lt {n : Nat} {v : Int} (h : v.natAbs < Nat.pow 16 n)
    (hn : 2 * n ≤ maxDigits) : isShowable v = true := by
  have hten : tenPow (2 * n) ≤ tenPow maxDigits := tenPow_le hn
  have hpow := pow_sixteen_le n
  rw [isShowable, decide_eq_true_eq]
  omega

/-- A number with 255 digits to base 16 rounds to a finite double. -/
theorem Binary64.lt_overflowBound {n : Nat} (h : n < Nat.pow 16 255) : n < overflowBound := by
  have hlow : twoPow 970 ≤ twoPow 1023 := twoPow_le (by decide)
  have hhigh : twoPow (4 * 255) ≤ twoPow 1023 := twoPow_le (by decide)
  have hdouble : twoPow 1024 = twoPow 1023 * 2 := twoPow_succ 1023
  rw [pow_sixteen_eq] at h
  unfold overflowBound
  omega

/-! ## Registers -/

namespace Register

/-- A number of a register is a sign and digits. -/
theorem isNumber_parts {text : List Char} (h : isNumber text = true) :
    ∃ mark digits, text = mark ++ digits ∧ Numeral.IsMark mark ∧ Numeral.IsDecimal digits := by
  simp only [isNumber, Bool.and_eq_true, Bool.not_eq_true', List.isEmpty_eq_false_iff,
    List.all_eq_true] at h
  unfold Numeral.splitSign at h
  split at h
  · exact ⟨['+'], _, rfl, .inr (.inl rfl), h⟩
  · exact ⟨['-'], _, rfl, .inr (.inr rfl), h⟩
  · exact ⟨[], _, rfl, .inl rfl, h⟩

/-- The text has more digits in a row than are read. -/
def HasLongRun (text : List Char) : Prop :=
  ∃ digits, digits <:+: text ∧ (∀ c ∈ digits, Lexeme.isNameChar c = true) ∧
    Numeral.maxDigits < digits.length

theorem int32?_error {text : List Char} {fault : Fault} (h : int32? text = .error fault) :
    fault = .tooManyDigits ∧ HasLongRun text := by
  unfold int32? at h
  split at h
  · rename_i hn
    obtain ⟨mark, digits, rfl, hm, hd⟩ := isNumber_parts hn
    have hdigits := Numeral.isDigits_of_decimal hd
    have hname := Numeral.nameChars_of_isDigits hdigits
    obtain ⟨n, -, hread⟩ := Numeral.readDigits_of_isDigits hdigits
    rw [Numeral.readDecimal_literal hm hname, hread] at h
    split at h
    · rename_i hlong
      cases h
      exact ⟨rfl, digits, (List.suffix_append mark digits).isInfix, hname, hlong.2⟩
    · cases h
  · cases h

/-- A signed 32-bit number. -/
def IsInt32 (n : Int) : Prop :=
  -2147483648 ≤ n ∧ n ≤ 2147483647

theorem int32?_bounds {text : List Char} {n : Int} (h : int32? text = .ok (some n)) :
    IsInt32 n := by
  unfold int32? at h
  split at h
  · cases hr : Numeral.readDecimal text with
    | error fault => rw [hr] at h; cases h
    | ok m =>
      rw [hr] at h
      simp only [Except.map, Except.ok.injEq] at h
      split at h
      · rename_i hm
        cases h
        exact hm
      · cases h
  · cases h

/-- A cause that shows 32-bit numbers can be shown. -/
theorem ofCause_eq_source {cause : Cause} (h : ∀ n ∈ cause.numbers, IsInt32 n) :
    Fault.ofCause cause = .source { cause := cause } := by
  have hshow : cause.numbers.all Numeral.isShowable = true := by
    rw [List.all_eq_true]
    intro n hn
    obtain ⟨hlo, hhi⟩ := h n hn
    exact Numeral.isShowable_of_bounds (by omega) (by omega)
  simp [Fault.ofCause, Fault.ofError, hshow]

/-- The causes that resolving a register can give. -/
def resolveKinds : List String :=
  ["unknown-register", "named-register-range", "num-register-range"]

/-- An error of resolving a register: it has one of three causes and no place. -/
def IsResolveError (fault : Fault) : Prop :=
  ∃ cause : Cause, cause.kind ∈ resolveKinds ∧ fault = .source { cause := cause }

theorem isResolveError_unknown (name : String) :
    IsResolveError (.ofCause (.unknownRegister name)) :=
  ⟨_, by simp [Cause.kind, resolveKinds], rfl⟩

theorem isResolveError_number {n : Int} (h : IsInt32 n) :
    IsResolveError (.ofCause (.registerNumber n)) :=
  ⟨_, by simp [Cause.kind, resolveKinds], ofCause_eq_source (by simpa [Cause.numbers] using h)⟩

theorem isResolveError_family (family : String) {n : Int} (h : IsInt32 n) :
    IsResolveError (.ofCause (.familyIndex family n)) :=
  ⟨_, by simp [Cause.kind, resolveKinds], ofCause_eq_source (by simpa [Cause.numbers] using h)⟩

theorem unresolved_error {text : List Char} {fault : Fault} (h : unresolved text = .error fault) :
    IsResolveError fault ∨ (fault = .tooManyDigits ∧ HasLongRun text) := by
  cases text with
  | nil => rw [← Except.error.inj h]; exact .inl (isResolveError_unknown _)
  | cons letter digits =>
    simp only [unresolved] at h
    split at h
    · cases hr : int32? digits with
      | error f =>
        rw [hr] at h
        obtain ⟨rfl, run, hrun, hlong⟩ := int32?_error hr
        rw [← Except.error.inj h]
        exact .inr ⟨rfl, run, hrun.trans (List.suffix_cons letter digits).isInfix, hlong⟩
      | ok index =>
        rw [hr] at h
        cases index with
        | none => rw [← Except.error.inj h]; exact .inl (isResolveError_unknown _)
        | some n =>
          rw [← Except.error.inj h]
          exact .inl (isResolveError_family _ (int32?_bounds hr))
    · rw [← Except.error.inj h]
      exact .inl (isResolveError_unknown _)

/-- **Why a register is not resolved**: for one of three causes, or because it has too many
digits. -/
theorem resolve_error {text : List Char} {fault : Fault} (h : resolve text = .error fault) :
    IsResolveError fault ∨ (fault = .tooManyDigits ∧ HasLongRun text) := by
  unfold resolve at h
  cases hr : int32? text with
  | error f =>
    rw [hr] at h
    rw [← Except.error.inj h]
    exact .inr (int32?_error hr)
  | ok number =>
    rw [hr] at h
    cases number with
    | some n =>
      change ofNumber n = .error fault at h
      unfold ofNumber at h
      split at h
      · cases h
      · rw [← Except.error.inj h]
        exact .inl (isResolveError_number (int32?_bounds hr))
    | none =>
      simp only [bind, Except.bind] at h
      split at h
      · cases h
      · exact unresolved_error h

end Register

end MipsSource
