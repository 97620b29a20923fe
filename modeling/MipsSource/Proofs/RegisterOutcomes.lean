import MipsSource.Proofs.RegisterNames
import MipsSource.Proofs.ShortRuns
import MipsSource.Proofs.Spelling

/-!
# What register operands resolve to

The text of a register operand is a number, the name of a register, the letter of a family with an
index, or nothing known. These are told apart in this order, and the first decides:

* `Register.Outcome`: what a text resolves to, each outcome with exactly the texts that have it.
* `Register.IsCore`: what is left of a token without its blanks and its dollar sign.
* `Register.resolve_outcomes`: every text, and every token, has the outcome it should have.
* `Register.familyIndex_iff`: an index is said to lie outside its family where it does so, and also
  where it has a sign or leading zeros.
-/

set_option autoImplicit false

namespace MipsSource

namespace Spelling

/-- A number in decimal: a sign, which may be missing, and digits. -/
inductive IsIndex : List Char → Int → Prop
  | intro {mark word : List Char} {negative : Bool} {n : Nat} :
      (mark, negative) ∈ signs → IsDigits 10 word n →
      IsIndex (mark ++ word) (Numeral.signed negative n)

/-- A number starts with a sign or a digit. -/
theorem IsIndex.head {text : List Char} {n : Int} (h : IsIndex text n) :
    ∃ c rest, text = c :: rest ∧ (c ∈ ['+', '-'] ∨ c.isDigit = true) := by
  obtain ⟨hs, hd⟩ := h
  rename_i mark word negative n
  rcases (mem_signs hs).1 with rfl | rfl | rfl
  · obtain ⟨c, rest, rfl⟩ := List.exists_cons_of_ne_nil hd.isDecimal.1
    exact ⟨c, rest, rfl, .inr (hd.isDecimal.2 c List.mem_cons_self)⟩
  · exact ⟨'+', word, rfl, .inl (by simp)⟩
  · exact ⟨'-', word, rfl, .inl (by simp)⟩

end Spelling

namespace Register

open Spelling

/-! ## Numbers -/

/-- The text is no number with more digits than are read. -/
def DigitsFit (text : List Char) : Prop :=
  ∀ mark word, text = mark ++ word → Numeral.IsMark mark → Numeral.IsDecimal word →
    word.length ≤ Numeral.maxDigits

variable {text : List Char}

theorem isNumber_of_isIndex {n : Int} (h : IsIndex text n) : isNumber text = true := by
  obtain ⟨hs, hd⟩ := h
  have hdecimal := hd.isDecimal
  have hname := Numeral.nameChars_of_isDigits hd.isDigits
  rw [isNumber, Numeral.splitSign_literal (mem_signs hs).1 hname]
  simpa [List.all_eq_true, Numeral.IsDecimal] using hdecimal

theorem exists_isIndex (h : isNumber text = true) : ∃ n, IsIndex text n := by
  obtain ⟨mark, word, rfl, hm, hw⟩ := isNumber_parts h
  obtain ⟨n, hn⟩ := exists_isDigits (Numeral.isDigits_of_decimal hw) (by decide)
  exact ⟨_, .intro (mark_mem_signs hm) hn⟩

instance (n : Int) : Decidable (IsInt32 n) :=
  inferInstanceAs (Decidable (_ ∧ _))

theorem int32?_of_isIndex {n : Int} (h : IsIndex text n) (hfit : DigitsFit text) :
    int32? text = .ok (if IsInt32 n then some n else none) := by
  rw [int32?, if_pos (isNumber_of_isIndex h)]
  obtain ⟨hs, hd⟩ := h
  obtain ⟨hm, rfl⟩ := mem_signs hs
  have hlen := hfit _ _ rfl hm hd.isDecimal
  rw [Numeral.readDecimal_literal hm (Numeral.nameChars_of_isDigits hd.isDigits),
    hd.readDigits fun _ => hlen]
  rfl

/-- **The 32-bit number that a text is**, if it is one. -/
theorem int32?_spec (hfit : DigitsFit text) :
    ∃ found, int32? text = .ok found ∧ ∀ n, found = some n ↔ IsIndex text n ∧ IsInt32 n := by
  by_cases hnumber : isNumber text = true
  · obtain ⟨n, hn⟩ := exists_isIndex hnumber
    refine ⟨_, int32?_of_isIndex hn hfit, fun m => ?_⟩
    constructor
    · intro h
      split at h
      · cases h
        exact ⟨hn, by assumption⟩
      · cases h
    · -- the text is read once, so both numbers are the one that is read
      rintro ⟨hm, hm32⟩
      have hread := (int32?_of_isIndex hn hfit).symm.trans (int32?_of_isIndex hm hfit)
      rwa [if_pos hm32, Except.ok.injEq] at hread
  · refine ⟨none, by rw [int32?, if_neg hnumber], fun n => ⟨fun h => (by cases h), fun h => ?_⟩⟩
    exact absurd (isNumber_of_isIndex h.1) hnumber

theorem int32?_none (hfit : DigitsFit text) (h : ∀ n, IsIndex text n → ¬ IsInt32 n) :
    int32? text = .ok none := by
  obtain ⟨found, hread, hfound⟩ := int32?_spec hfit
  cases found with
  | none => exact hread
  | some n =>
    obtain ⟨hn, hn32⟩ := (hfound n).1 rfl
    exact absurd hn32 (h n hn)

theorem isInt32_number (r : Register) : IsInt32 r.number.val := by
  unfold IsInt32
  omega

/-! ## Families -/

/-- The text is the letter of a family and a 32-bit number. -/
inductive IsFamilyIndex : List Char → String → Int → Prop
  | intro {letter : Char} {rest : List Char} {n : Int} :
      letter ∈ ['v', 'a', 't', 's', 'k'] → IsIndex rest n → IsInt32 n →
      IsFamilyIndex (letter :: rest) (String.singleton letter) n

theorem familyRange?_isSome_iff {letter : Char} :
    (familyRange? (String.singleton letter)).isSome = true ↔
      letter ∈ ['v', 'a', 't', 's', 'k'] := by
  have hfamilies : families.map Prod.fst = ['v', 'a', 't', 's', 'k'].map String.singleton := by
    decide
  rw [familyRange?, List.lookup_isSome_iff]
  constructor
  · rintro ⟨p, hp, hletter⟩
    have hmem : p.1 ∈ families.map Prod.fst := List.mem_map_of_mem hp
    rw [hfamilies, ← beq_iff_eq.1 hletter] at hmem
    obtain ⟨d, hd, heq⟩ := List.mem_map.1 hmem
    rwa [← String.singleton_inj.1 heq]
  · intro h
    have hmem := List.mem_map_of_mem (f := String.singleton) h
    rw [← hfamilies] at hmem
    obtain ⟨p, hp, heq⟩ := List.mem_map.1 hmem
    exact ⟨p, hp, beq_iff_eq.2 heq.symm⟩

/-- No number in the text, or after its first character, has more digits than are read. -/
def NumeralsFit (text : List Char) : Prop :=
  DigitsFit text ∧ ∀ letter rest, text = letter :: rest → DigitsFit rest

theorem digitsFit_of_length (h : text.length ≤ Numeral.maxDigits) : DigitsFit text := by
  rintro mark word rfl - -
  rw [List.length_append] at h
  omega

theorem numeralsFit_of_length (h : text.length ≤ Numeral.maxDigits) : NumeralsFit text := by
  refine ⟨digitsFit_of_length h, ?_⟩
  rintro letter rest rfl
  rw [List.length_cons] at h
  exact digitsFit_of_length (by omega)

theorem unresolved_of_family {family : String} {n : Int} (h : IsFamilyIndex text family n)
    (hfit : NumeralsFit text) :
    unresolved text = .error (.source { cause := .familyIndex family n }) := by
  obtain ⟨hletter, hn, hn32⟩ := h
  rename_i letter rest
  have hread : int32? rest = .ok (some n) := by
    rw [int32?_of_isIndex hn (hfit.2 letter rest rfl), if_pos hn32]
  rw [unresolved, if_pos (familyRange?_isSome_iff.2 hletter), hread,
    ← ofCause_eq_source (by simpa [Cause.numbers] using hn32)]
  rfl

theorem unresolved_unknown (h : ∀ family n, ¬ IsFamilyIndex text family n)
    (hfit : NumeralsFit text) :
    unresolved text = .error (.source { cause := .unknownRegister (String.ofList text) }) := by
  cases text with
  | nil => rfl
  | cons letter rest =>
    by_cases hletter : (familyRange? (String.singleton letter)).isSome = true
    · have hread : int32? rest = .ok none :=
        int32?_none (hfit.2 letter rest rfl) fun n hn hn32 =>
          h _ n (.intro (familyRange?_isSome_iff.1 hletter) hn hn32)
      rw [unresolved, if_pos hletter, hread]
      rfl
    · rw [unresolved, if_neg hletter]
      rfl

/-! ## Resolving -/

/-- Small letters keep a number as it is. -/
theorem map_smallLetter_of_isIndex {n : Int} (h : IsIndex text n) :
    text.map smallLetter = text := by
  obtain ⟨hs, hd⟩ := h
  rename_i mark word negative m
  have hword : ∀ c ∈ word, smallLetter c = c := fun c hc =>
    Numeral.forall_digit (P := fun c => smallLetter c = c) (by decide) (hd.isDecimal.2 c hc)
  rw [List.map_append, List.map_congr_left hword, List.map_id']
  rcases (mem_signs hs).1 with rfl | rfl | rfl <;> rfl

theorem not_isNamed_of_isIndex {n : Int} (h : IsIndex text n) (r : Register) :
    ¬ IsNamed text r := by
  intro hr
  rw [IsNamed, Text.lower_eq_iff (isAscii_name r), map_smallLetter_of_isIndex h] at hr
  have hnumber := isNumber_of_isIndex h
  rw [hr, isNumber_name] at hnumber
  cases hnumber

theorem not_isFamilyIndex_of_isIndex {m : Int} (h : IsIndex text m) (family : String) (n : Int) :
    ¬ IsFamilyIndex text family n := by
  have hletters : ∀ c ∈ ['v', 'a', 't', 's', 'k'], c ∉ ['+', '-'] ∧ c.isDigit = false :=
    Lexeme.forall_mem_of_all (by decide)
  obtain ⟨c, rest, rfl, hc⟩ := h.head
  rintro ⟨hletter, -, -⟩
  obtain ⟨hsign, hdigit⟩ := hletters c hletter
  rcases hc with hc | hc
  · exact hsign hc
  · rw [hdigit] at hc
    cases hc

theorem resolve_of_isIndex {n : Int} (h : IsIndex text n) (hn : IsInt32 n) (hfit : DigitsFit text) :
    resolve text = ofNumber n := by
  rw [resolve, int32?_of_isIndex h hfit, if_pos hn]
  rfl

theorem resolve_of_inside {r : Register} (h : IsIndex text r.number.val) (hfit : DigitsFit text) :
    resolve text = .ok r := by
  rw [resolve_of_isIndex h (isInt32_number r) hfit, ofNumber, ofNumber?_number]

theorem resolve_of_outside {n : Int} (h : IsIndex text n) (hn : IsInt32 n)
    (hout : ¬ (0 ≤ n ∧ n ≤ 31)) (hfit : DigitsFit text) :
    resolve text = .error (.source { cause := .registerNumber n }) := by
  have hnone : ofNumber? n = none := dif_neg (by omega)
  rw [resolve_of_isIndex h hn hfit, ofNumber, hnone,
    ← ofCause_eq_source (by simpa [Cause.numbers] using hn)]

theorem resolve_of_none (h : int32? text = .ok none) :
    resolve text = match ofName? (String.ofList (text.map smallLetter)) with
      | some r => .ok r
      | none => unresolved text := by
  rw [resolve, h]
  rfl

/-- A name is resolved whatever its digits. -/
theorem resolve_of_isNamed {r : Register} (h : IsNamed text r) : resolve text = .ok r := by
  have hnumber : ¬ isNumber text = true := fun hnumber => by
    obtain ⟨n, hn⟩ := exists_isIndex hnumber
    exact not_isNamed_of_isIndex hn r h
  have hnone : int32? text = .ok none := by rw [int32?, if_neg hnumber]
  rw [resolve_of_none hnone, ofName?_smallLetters.2 h]

/-- What is neither a 32-bit number nor a name is left to the families. -/
theorem resolve_eq_unresolved (hnumber : ∀ n, IsIndex text n → ¬ IsInt32 n)
    (hname : ∀ r, ¬ IsNamed text r) (hfit : NumeralsFit text) :
    resolve text = unresolved text := by
  rw [resolve_of_none (int32?_none hfit.1 hnumber), ofName?_eq_none_iff.2 hname]

/-! ## Outcomes -/

/-- What a text can resolve to. -/
inductive Outcome where
  /-- A register. -/
  | register (r : Register)
  /-- A number that no register has. -/
  | strayNumber (n : Int)
  /-- An index that is said to lie outside its family. -/
  | strayIndex (family : String) (n : Int)
  /-- Nothing known. -/
  | unknown

namespace Outcome

/-- The answer that an outcome stands for; what is not known is reported as it is written. -/
def answer (text : List Char) : Outcome → Except Fault Register
  | register r => .ok r
  | strayNumber n => .error (.source { cause := .registerNumber n })
  | strayIndex family n => .error (.source { cause := .familyIndex family n })
  | unknown => .error (.source { cause := .unknownRegister (String.ofList text) })

/-- The texts that stand for a register: its number, or its name in any letters. -/
def IsRegister (text : List Char) (r : Register) : Prop :=
  IsIndex text r.number.val ∨ IsNamed text r

/-- The 32-bit numbers that no register has. -/
def IsStrayNumber (text : List Char) (n : Int) : Prop :=
  IsIndex text n ∧ IsInt32 n ∧ ¬ (0 ≤ n ∧ n ≤ 31)

/-- What is no name, but the letter of a family with a 32-bit number. -/
def IsStrayIndex (text : List Char) (family : String) (n : Int) : Prop :=
  (∀ r, ¬ IsNamed text r) ∧ IsFamilyIndex text family n

/-- The texts that have an outcome. Nothing is known of those that have none of the others. -/
def Holds (text : List Char) : Outcome → Prop
  | register r => IsRegister text r
  | strayNumber n => IsStrayNumber text n
  | strayIndex family n => IsStrayIndex text family n
  | unknown => (∀ r, ¬ IsRegister text r) ∧ (∀ n, ¬ IsStrayNumber text n) ∧
      ∀ family n, ¬ IsStrayIndex text family n

theorem answer_inj {a b : Outcome} (h : answer text a = answer text b) : a = b := by
  cases a <;> cases b <;> cases h <;> rfl

/-- Every text has an outcome. -/
theorem exists_holds (text : List Char) : ∃ outcome, Holds text outcome := by
  by_cases hregister : ∃ r, IsRegister text r
  · obtain ⟨r, hr⟩ := hregister
    exact ⟨register r, hr⟩
  by_cases hnumber : ∃ n, IsStrayNumber text n
  · obtain ⟨n, hn⟩ := hnumber
    exact ⟨strayNumber n, hn⟩
  by_cases hindex : ∃ family n, IsStrayIndex text family n
  · obtain ⟨family, n, hn⟩ := hindex
    exact ⟨strayIndex family n, hn⟩
  · simp only [not_exists] at hregister hnumber hindex
    exact ⟨unknown, hregister, hnumber, hindex⟩

end Outcome

open Outcome

section
variable (hfit : NumeralsFit text)
include hfit

theorem resolve_of_isStrayIndex {family : String} {n : Int} (h : IsStrayIndex text family n) :
    resolve text = .error (.source { cause := .familyIndex family n }) := by
  have hnumber : ∀ m, IsIndex text m → ¬ IsInt32 m :=
    fun m hm _ => not_isFamilyIndex_of_isIndex hm family n h.2
  rw [resolve_eq_unresolved hnumber h.1 hfit, unresolved_of_family h.2 hfit]

theorem resolve_of_unknown (h : Holds text unknown) :
    resolve text = .error (.source { cause := .unknownRegister (String.ofList text) }) := by
  obtain ⟨hregister, hnumber, hindex⟩ := h
  have hname : ∀ r, ¬ IsNamed text r := fun r hr => hregister r (.inr hr)
  have hno32 : ∀ n, IsIndex text n → ¬ IsInt32 n := by
    intro n hn hn32
    by_cases hin : 0 ≤ n ∧ n ≤ 31
    · obtain ⟨k, rfl⟩ := Int.eq_ofNat_of_zero_le hin.1
      exact hregister ⟨⟨k, by omega⟩⟩ (.inl hn)
    · exact hnumber n ⟨hn, hn32, hin⟩
  rw [resolve_eq_unresolved hno32 hname hfit,
    unresolved_unknown (fun family n h => hindex family n ⟨hname, h⟩) hfit]

/-- A text that has an outcome is resolved so. -/
theorem resolve_of_holds {outcome : Outcome} (h : Holds text outcome) :
    resolve text = answer text outcome := by
  cases outcome with
  | register r => exact h.elim (fun h => resolve_of_inside h hfit.1) resolve_of_isNamed
  | strayNumber n => exact resolve_of_outside h.1 h.2.1 h.2.2 hfit.1
  | strayIndex family n => exact resolve_of_isStrayIndex hfit h
  | unknown => exact resolve_of_unknown hfit h

/-- **The outcomes exclude each other**: a text is resolved to the one that it has. -/
theorem resolve_eq_answer_iff (outcome : Outcome) :
    resolve text = answer text outcome ↔ Holds text outcome := by
  refine ⟨fun h => ?_, resolve_of_holds hfit⟩
  obtain ⟨found, hfound⟩ := exists_holds text
  have heq := (resolve_of_holds hfit hfound).symm.trans h
  rwa [← answer_inj heq]

end

/-! ## Tokens -/

/-- What is left of a token without the blanks around it and without one dollar sign before it. -/
def IsCore (token core : List Char) : Prop :=
  ∃ before inner after, token = before ++ (inner ++ after) ∧
    (∀ c ∈ before, Text.isBlank c = true) ∧ (∀ c ∈ after, Text.isBlank c = true) ∧
    (∀ c ∈ inner.head?, Text.isBlank c = false) ∧
    (∀ c ∈ inner.getLast?, Text.isBlank c = false) ∧
    (inner = '$' :: core ∨ (inner = core ∧ core.head? ≠ some '$'))

theorem dropDollar_eq_iff {inner core : List Char} :
    dropDollar inner = core ↔ inner = '$' :: core ∨ (inner = core ∧ core.head? ≠ some '$') := by
  unfold dropDollar
  split
  · rename_i rest
    constructor
    · rintro rfl
      exact .inl rfl
    · rintro (h | ⟨rfl, h⟩)
      · exact (List.cons.inj h).2
      · exact absurd rfl h
  · rename_i hdollar
    constructor
    · rintro rfl
      refine .inr ⟨rfl, fun h => ?_⟩
      obtain ⟨rest, rfl⟩ := List.head?_eq_some_iff.1 h
      exact hdollar rest rfl
    · rintro (rfl | ⟨rfl, -⟩)
      · exact absurd rfl (hdollar core)
      · rfl

/-- Every token has a core, and the reader of tokens finds it. -/
theorem isCore_iff {token core : List Char} :
    IsCore token core ↔ dropDollar (Text.trim token) = core := by
  constructor
  · rintro ⟨before, inner, after, rfl, hb, ha, hhead, hlast, hinner⟩
    rw [Text.trim, Text.trimWhile_append hb ha hhead hlast]
    exact dropDollar_eq_iff.2 hinner
  · intro h
    obtain ⟨before, after, htoken, hb, ha, hhead, hlast⟩ := Text.exists_trimWhile Text.isBlank token
    exact ⟨before, _, after, htoken, hb, ha, hhead, hlast, dropDollar_eq_iff.1 h⟩

theorem isRegister_of_kind {cause : Cause} (h : cause.kind ∈ resolveKinds) :
    cause.isRegister = true := by
  cases cause <;> simp [Cause.kind, resolveKinds, Cause.isRegister] at h ⊢

theorem isToken_iff (token : List Char) :
    (isToken token = .ok true ↔ ∃ r, ofToken token = .ok r) ∧
      (isToken token = .ok false ↔ ∃ e, ofToken token = .error (.source e)) := by
  unfold isToken
  cases h : ofToken token with
  | ok r => simp
  | error fault =>
    rcases resolve_error h with ⟨cause, hkind, rfl⟩ | ⟨rfl, -⟩
    · simp [isRegister_of_kind hkind]
    · simp

/-- **The outcome of every operand.** A text whose numbers can be read is resolved to the outcome
that it has; a token is resolved as its core is, stands for a register if and only if the core is
resolved to one, and has the number of that register. -/
theorem resolve_outcomes :
    (∀ text, NumeralsFit text → ∀ outcome : Outcome,
      resolve text = outcome.answer text ↔ outcome.Holds text) ∧
    ∀ token, (∃ core, IsCore token core) ∧ ∀ core, IsCore token core →
      ofToken token = resolve core ∧
      (isToken token = .ok true ↔ ∃ r, resolve core = .ok r) ∧
      (isToken token = .ok false ↔ ∃ e, resolve core = .error (.source e)) ∧
      ∀ r, resolve core = .ok r → tokenNumber token = .ok r.number := by
  refine ⟨fun text hfit => resolve_eq_answer_iff hfit, fun token => ⟨⟨_, isCore_iff.2 rfl⟩, ?_⟩⟩
  intro core hcore
  have htoken : ofToken token = resolve core := by rw [ofToken, isCore_iff.1 hcore]
  obtain ⟨htrue, hfalse⟩ := isToken_iff token
  rw [htoken] at htrue hfalse
  refine ⟨htoken, htrue, hfalse, fun r hr => ?_⟩
  rw [tokenNumber, htoken, hr]
  rfl

theorem resolve_outcomes_kelvin :
    NumeralsFit ['\u212a', '1'] ∧ resolve ['\u212a', '1'] = .ok ⟨27⟩ ∧
      NumeralsFit ['t', '1', '2'] ∧
      resolve ['t', '1', '2'] = .error (.source { cause := .familyIndex "t" 12 }) ∧
      IsCore ['\t', '$', 't', '1', '2', ' '] ['t', '1', '2'] ∧
      isToken ['\t', '$', 't', '1', '2', ' '] = .ok false := by
  have hk : NumeralsFit ['\u212a', '1'] := numeralsFit_of_length (by decide)
  have ht : NumeralsFit ['t', '1', '2'] := numeralsFit_of_length (by decide)
  have hcore : IsCore ['\t', '$', 't', '1', '2', ' '] ['t', '1', '2'] := isCore_iff.2 (by decide)
  have hname : IsNamed ['\u212a', '1'] ⟨27⟩ := by
    unfold IsNamed
    decide +kernel
  have hnone : ∀ r, ¬ IsNamed ['t', '1', '2'] r := ofName?_eq_none_iff.1 (by decide)
  have hdigits : IsDigits 10 ['1', '2'] 12 :=
    .snoc (.single (d := 1) (by decide) (by decide)) (d := 2) (by decide) (by decide)
  have hindex : IsFamilyIndex ['t', '1', '2'] "t" 12 :=
    .intro (by decide) (@IsIndex.intro [] ['1', '2'] false 12 (by decide) hdigits) (by decide)
  have hfamily := (resolve_outcomes.1 _ ht (.strayIndex "t" 12)).2 ⟨hnone, hindex⟩
  refine ⟨hk, (resolve_outcomes.1 _ hk (.register ⟨27⟩)).2 (.inr hname), ht, hfamily, hcore, ?_⟩
  exact ((resolve_outcomes.2 _).2 _ hcore).2.2.1.2 ⟨_, hfamily⟩

/-! ## Indices outside their family -/

/-- The text names a member of the family: the letter, and an index in the range of the family in
the shortest form. -/
def IsMember (text : List Char) (family : String) (index : Int) : Prop :=
  ∃ range, familyRange? family = some range ∧ range.lo ≤ index ∧ index ≤ range.hi ∧
    text = family.toList ++ (Numeral.text index).toList

/-- Every member of a family is a register. -/
theorem IsMember.isNamed {family : String} {index : Int} (h : IsMember text family index) :
    ∃ r, IsNamed text r := by
  have hall : ∀ p ∈ families, ∀ k : Fin (p.2.hi + 1), ∃ i : Fin 32,
      (Register.mk i).name.toList = p.1.toList ++ (Numeral.text k.val).toList := by
    decide +kernel
  obtain ⟨range, hrange, hlo, hhi, rfl⟩ := h
  obtain ⟨before, after, hfamilies, -⟩ := List.lookup_eq_some_iff.1 hrange
  have hmem : (family, range) ∈ families := by simp [hfamilies]
  obtain ⟨k, rfl⟩ := Int.eq_ofNat_of_zero_le (Int.le_trans (Int.natCast_nonneg _) hlo)
  obtain ⟨i, hi⟩ := hall _ hmem ⟨k, by simp; omega⟩
  exact ⟨⟨i⟩, hi ▸ isNamed_name ⟨i⟩⟩

/-- The value of a number in decimal. -/
def indexValue (text : List Char) : Int :=
  Numeral.signed (Numeral.splitSign text).1 (Lexeme.decimalValue (Numeral.splitSign text).2)

theorem indexValue_of_isIndex {n : Int} (h : IsIndex text n) : indexValue text = n := by
  obtain ⟨hs, hd⟩ := h
  obtain ⟨hm, rfl⟩ := mem_signs hs
  rw [indexValue, Numeral.splitSign_literal hm (Numeral.nameChars_of_isDigits hd.isDigits),
    hd.decimalValue]

/-- A register's name that is a letter and an index names a member of the letter's family. -/
theorem isMember_name {r : Register} {letter : Char} {rest : List Char} {n : Int}
    (hname : r.name.toList = letter :: rest) (hn : IsIndex rest n) :
    IsMember (letter :: rest) (String.singleton letter) n := by
  have hall : ∀ i : Fin 32, isNumber (Register.mk i).name.toList.tail = true →
      ((familyRange? (String.singleton ((Register.mk i).name.toList.headD ' '))).any fun range =>
        range.lo ≤ indexValue (Register.mk i).name.toList.tail &&
          indexValue (Register.mk i).name.toList.tail ≤ range.hi) = true ∧
      (Register.mk i).name.toList.tail =
        (Numeral.text (indexValue (Register.mk i).name.toList.tail)).toList := by
    decide +kernel
  have hmember := hall r.number
  rw [hname, List.tail_cons, List.headD_cons, indexValue_of_isIndex hn] at hmember
  obtain ⟨hrange, hshort⟩ := hmember (isNumber_of_isIndex hn)
  obtain ⟨range, hfamily, hbounds⟩ := (Option.any_eq_true _ _).1 hrange
  simp only [Bool.and_eq_true, decide_eq_true_eq] at hbounds
  refine ⟨range, hfamily, hbounds.1, hbounds.2, ?_⟩
  rw [← hshort, String.toList_singleton, List.singleton_append]

/-- A letter with an index that names a register names a member of the family. -/
theorem isMember_of_isNamed {family : String} {index : Int} {r : Register}
    (h : IsFamilyIndex text family index) (hr : IsNamed text r) : IsMember text family index := by
  obtain ⟨hletter, hn, -⟩ := h
  rename_i letter rest
  have hkept : ∀ c ∈ ['v', 'a', 't', 's', 'k'], smallLetter c = c :=
    Lexeme.forall_mem_of_all (by decide)
  rw [IsNamed, Text.lower_eq_iff (isAscii_name r), List.map_cons, hkept letter hletter,
    map_smallLetter_of_isIndex hn] at hr
  exact isMember_name hr.symm hn

/-- Where a text is tried as a number, its digits can be read. -/
theorem digitsFit_of_int32? {found : Option Int} (h : int32? text = .ok found) :
    DigitsFit text := by
  rintro mark word rfl hm hw
  refine Nat.le_of_not_lt fun hlong => ?_
  have hdigits := Numeral.isDigits_of_decimal hw
  obtain ⟨n, hn⟩ := exists_isDigits hdigits (by decide)
  obtain ⟨m, -, hread⟩ := Numeral.readDigits_of_isDigits hdigits
  rw [int32?, if_pos (isNumber_of_isIndex (.intro (mark_mem_signs hm) hn)),
    Numeral.readDecimal_literal hm (Numeral.nameChars_of_isDigits hdigits), hread,
    if_pos ⟨rfl, hlong⟩] at h
  cases h

theorem ofNumber_cause {n : Int} {cause : Cause} (hn : IsInt32 n)
    (h : ofNumber n = .error (.source { cause := cause })) : cause = .registerNumber n := by
  unfold ofNumber at h
  split at h
  · cases h
  · rw [ofCause_eq_source (by simpa [Cause.numbers] using hn)] at h
    cases h
    rfl

theorem digitsFit_of_unresolved {letter : Char} {rest : List Char} {family : String} {index : Int}
    (h : unresolved (letter :: rest) = .error (.source { cause := .familyIndex family index })) :
    DigitsFit rest := by
  cases hread : int32? rest with
  | ok found => exact digitsFit_of_int32? hread
  | error fault =>
    obtain ⟨rfl, -⟩ := int32?_error hread
    simp only [unresolved, hread] at h
    split at h <;> cases h

/-- An index is said to lie outside its family only after all numbers have been read. -/
theorem numeralsFit_of_familyIndex {family : String} {index : Int}
    (h : resolve text = .error (.source { cause := .familyIndex family index })) :
    NumeralsFit text := by
  cases hread : int32? text with
  | error fault =>
    obtain ⟨rfl, -⟩ := int32?_error hread
    rw [resolve, hread] at h
    cases h
  | ok found =>
    refine ⟨digitsFit_of_int32? hread, ?_⟩
    rintro letter rest rfl
    cases found with
    | some n =>
      rw [resolve, hread] at h
      have hcause := ofNumber_cause (int32?_bounds hread) h
      cases hcause
    | none =>
      rw [resolve_of_none hread] at h
      split at h
      · cases h
      · exact digitsFit_of_unresolved h

/-- **What is said to lie outside its family**: a letter of a family with any 32-bit number but the
indices of the family in their shortest form. An index of the family with a sign or with leading
zeros is among them. -/
theorem familyIndex_iff {family : String} {index : Int} :
    resolve text = .error (.source { cause := .familyIndex family index }) ↔
      NumeralsFit text ∧ IsFamilyIndex text family index ∧ ¬ IsMember text family index := by
  constructor
  · intro h
    have hfit := numeralsFit_of_familyIndex h
    obtain ⟨hname, hindex⟩ := (resolve_eq_answer_iff hfit (.strayIndex family index)).1 h
    refine ⟨hfit, hindex, fun hmember => ?_⟩
    obtain ⟨r, hr⟩ := hmember.isNamed
    exact hname r hr
  · rintro ⟨hfit, hindex, hmember⟩
    exact resolve_of_isStrayIndex hfit ⟨fun r hr => hmember (isMember_of_isNamed hindex hr), hindex⟩

/-- With a leading zero, an index inside the range of its family is said to lie outside, and the
hint names the range that it lies in. -/
theorem familyIndex_leading_zero :
    resolve ['t', '0', '5'] = .error (.source { cause := .familyIndex "t" 5 }) ∧
      (Cause.familyIndex "t" 5).message = "Registro $t5 fuera de rango" ∧
      (Cause.familyIndex "t" 5).hint = some "los registros $t van de $t0 a $t9" ∧
      ¬ ∀ text family index range,
        resolve text = .error (.source { cause := .familyIndex family index }) →
          familyRange? family = some range → ¬ (range.lo ≤ index ∧ index ≤ range.hi) := by
  have hname : ∀ r, ¬ IsNamed ['t', '0', '5'] r := ofName?_eq_none_iff.1 (by decide)
  have hdigits : IsDigits 10 ['0', '5'] 5 :=
    .snoc (.single (d := 0) (by decide) (by decide)) (d := 5) (by decide) (by decide)
  have hindex : IsIndex ['0', '5'] 5 := @IsIndex.intro [] ['0', '5'] false 5 (by decide) hdigits
  have hstray : IsStrayIndex ['t', '0', '5'] "t" 5 :=
    ⟨hname, .intro (by decide) hindex (by decide)⟩
  have h := resolve_of_isStrayIndex (numeralsFit_of_length (by decide)) hstray
  have hrange : familyRange? "t" = some ⟨0, 9⟩ := by decide
  exact ⟨h, by decide +kernel, by decide +kernel, fun hall => hall _ _ _ _ h hrange (by decide)⟩

end Register

end MipsSource
