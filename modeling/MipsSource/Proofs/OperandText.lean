import MipsSource.Proofs.SpelledOperands

/-!
# The text of operands

What is written of an operand is one of its spellings: decimal digits for numbers, small letters for
registers, no spaces. What reading does with spellings then says that the operand is read back.

* `WrittenAs`: what is written is there, on one line, and has some form.
* `Numeral.spelled`, `Symbol.spelled`, `Displacement.spelled`: the parts.
* `Operand.spelled`: every well-formed operand without a fraction, its symbols having offsets that
  can be written.
-/

set_option autoImplicit false

namespace MipsSource

open Spelling

/-! ## Numbers, registers and characters -/

/-- The digits that are written of a number. -/
theorem Spelling.isDigits_toDigits (n : Nat) : IsDigits 10 (Nat.toDigits 10 n) n := by
  have hdigit : ∀ d : Fin 10, (Nat.digitChar d, d.val) ∈ digits := by decide
  induction n using Nat.strongRecOn with
  | ind n ih =>
    by_cases hn : n < 10
    · rw [Nat.toDigits_of_lt_base hn]
      exact .single (hdigit ⟨n, hn⟩) hn
    · have hlast : n % 10 < 10 := Nat.mod_lt n (by decide)
      have h := IsDigits.snoc (ih (n / 10) (by omega)) (hdigit ⟨n % 10, hlast⟩) hlast
      have hvalue : n / 10 * 10 + n % 10 = n := by omega
      rwa [hvalue, ← Nat.toDigits_of_base_le (by decide) (by omega)] at h

theorem Numeral.isInteger_text {i : Int} (h : isShowable i = true) :
    IsInteger (text i).toList i := by
  have hmag : IsMagnitude baseMarks (Nat.toDigits 10 i.natAbs) i.natAbs :=
    .decimal (isDigits_toDigits _) ((isShowable_iff i).1 h)
  have hword := IsInteger.intro (minus_mem_signs (decide (i < 0))) hmag
  rwa [← toList_text, signed_natAbs] at hword

theorem Register.isRegister_render (r : Register) : IsRegister r.render.toList r := by
  have hname : ∀ i : Fin 32, (Register.mk i).name.toList ≠ [] ∧
      (Register.mk i).name.toList.all Lexeme.isNameChar = true := by decide
  obtain ⟨hne, hall⟩ := hname r.number
  have hbare : (([] : List Char), false) ∈ signs := by decide
  rw [toList_render]
  exact .intro hbare hne (List.all_eq_true.1 hall) r.resolve_name

theorem Text.isCharacter_escape (c : Char) : IsCharacter (escapeChar '\'' c) c := by
  by_cases h : c ∈ ['\'', '\n', '\t', '\r', '\x00', '\\']
  · have hall : ∀ c ∈ ['\'', '\n', '\t', '\r', '\x00', '\\'],
        ∃ p ∈ escapes, p.2 = c ∧ escapeChar '\'' c = ['\\', p.1] :=
      Lexeme.forall_mem_of_all (by decide)
    obtain ⟨⟨letter, _⟩, hmem, rfl, heq⟩ := hall c h
    rw [heq]
    exact .escape hmem
  · simp only [List.mem_cons, List.not_mem_nil, or_false, not_or] at h
    have hraw : escapeChar '\'' c = [c] := by simp [escapeChar, h]
    rw [hraw]
    exact .raw (by simp [h])

/-! ## Symbols -/

namespace Symbol

/-- The offset has at most 4300 digits. -/
def Writable (s : Symbol) : Prop :=
  (Nat.toDigits 10 s.offset.natAbs).length ≤ 4300

instance : DecidablePred Writable := fun _ => inferInstanceAs (Decidable (_ ≤ _))

/-- What is written of an offset. -/
def offsetText (offset : Int) : List Char :=
  if 0 < offset then '+' :: Nat.toDigits 10 offset.natAbs
  else if offset < 0 then '-' :: Nat.toDigits 10 offset.natAbs
  else []

theorem render_eq {s : Symbol} (h : s.Writable) :
    s.render = .ok (s.name ++ String.ofList (offsetText s.offset)) := by
  have hshow : Numeral.isShowable s.offset = true := (Numeral.isShowable_iff s.offset).2 h
  have hshow' : Numeral.isShowable (-s.offset) = true := by
    rw [Numeral.isShowable_iff, Int.natAbs_neg]
    exact h
  rw [render, offsetText]
  split
  · rename_i hpos
    have hnot : ¬ s.offset < 0 := Int.not_lt.2 (Int.le_of_lt hpos)
    simp [Numeral.write_eq_ok hshow, Except.map, String.ext_iff, Numeral.toList_text,
      Numeral.minus, hnot]
  · split
    · rename_i hneg
      have hle : s.offset ≤ 0 := Int.le_of_lt hneg
      simp [Numeral.write_eq_ok hshow', Except.map, String.ext_iff, Numeral.toList_text,
        Numeral.minus, hle, Int.natAbs_neg]
    · simp

/-- What is written of a reference is one of its spellings. -/
theorem isSymbol_render {name : String} {offset : Int} (hname : IsName name)
    (h : (Nat.toDigits 10 offset.natAbs).length ≤ 4300) :
    IsSymbol (name.toList ++ offsetText offset) { name := name, offset := offset } := by
  have hmag : IsMagnitude [('x', 16), ('X', 16)] (Nat.toDigits 10 offset.natAbs) offset.natAbs :=
    .decimal (isDigits_toDigits _) h
  unfold offsetText
  split
  · rename_i hpos
    have hoffset : Numeral.signed false offset.natAbs = offset := by
      rw [Numeral.signed, if_neg (by decide)]
      omega
    have hplus : (['+'], false) ∈ signs := by decide
    have hs := IsSymbol.shifted 0 0 hname hplus hmag
    rwa [hoffset] at hs
  · split
    · rename_i hneg
      have hoffset : Numeral.signed true offset.natAbs = offset := by
        rw [Numeral.signed, if_pos rfl]
        omega
      have hminus : (['-'], true) ∈ signs := by decide
      have hs := IsSymbol.shifted 0 0 hname hminus hmag
      rwa [hoffset] at hs
    · rename_i hpos hneg
      have hzero : offset = 0 := Int.le_antisymm (Int.not_lt.1 hpos) (Int.not_lt.1 hneg)
      rw [hzero, List.append_nil]
      exact .plain hname

theorem inline_render {s : Symbol} (hname : IsName s.name) :
    IsInline (s.name.toList ++ offsetText s.offset) := by
  have hall : ∀ c ∈ offsetText s.offset, c ∉ ['\t', '\n'] := by
    have hdigits : ∀ c ∈ Nat.toDigits 10 s.offset.natAbs, c ∉ ['\t', '\n'] := fun c hc =>
      Numeral.forall_digit (P := fun c => c ∉ ['\t', '\n']) (by decide)
        ((Numeral.isDecimal_toDigits _).2 c hc)
    unfold offsetText
    split
    · exact List.forall_mem_cons.2 ⟨by decide, hdigits⟩
    · split
      · exact List.forall_mem_cons.2 ⟨by decide, hdigits⟩
      · simp
  exact hname.inline.append (fun ht => hall _ ht (by simp)) fun hn => hall _ hn (by simp)

end Symbol

/-! ## Operands -/

namespace Displacement

/-- The offset of a symbol can be written. -/
def Writable : Displacement → Prop
  | .immediate _ => True
  | .symbol s => s.Writable

instance : DecidablePred Writable
  | .immediate _ => inferInstanceAs (Decidable True)
  | .symbol s => inferInstanceAs (Decidable s.Writable)

end Displacement

namespace Operand

/-- The offsets of symbols can be written, and there is no number with a fraction. -/
def Writable : Operand → Prop
  | .register _ => True
  | .memory _ displacement => ∀ d ∈ displacement, d.Writable
  | .immediate _ => True
  | .symbol s => s.Writable
  | .character _ => True
  | .float _ => False

instance : DecidablePred Writable
  | .register _ => inferInstanceAs (Decidable True)
  | .memory _ displacement => inferInstanceAs (Decidable (∀ d ∈ displacement, d.Writable))
  | .immediate _ => inferInstanceAs (Decidable True)
  | .symbol s => inferInstanceAs (Decidable s.Writable)
  | .character _ => inferInstanceAs (Decidable True)
  | .float _ => inferInstanceAs (Decidable False)

end Operand

/-- The rendering is there, on one line, and satisfies `S`. -/
structure WrittenAs (rendering : Except Fault String) (S : List Char → Prop) : Prop where
  ok : rendering = .ok (String.ofList (written rendering))
  inline : IsInline (written rendering)
  spelled : S (written rendering)

theorem WrittenAs.intro {rendering : Except Fault String} {S : List Char → Prop} {text : String}
    (h : rendering = .ok text) (hinline : IsInline text.toList) (hspelled : S text.toList) :
    WrittenAs rendering S := by
  subst h
  exact ⟨by simp [written], hinline, hspelled⟩

theorem WrittenAs.mono {rendering : Except Fault String} {S R : List Char → Prop}
    (h : WrittenAs rendering S) (hS : ∀ text, S text → R text) : WrittenAs rendering R :=
  ⟨h.ok, h.inline, hS _ h.spelled⟩

theorem Numeral.spelled {i : Int} (h : isShowable i = true) : WrittenAs (write i) (IsInteger · i) :=
  .intro (write_eq_ok h) (inline_text i) (isInteger_text h)

theorem Symbol.spelled {s : Symbol} (hname : IsName s.name) (hw : s.Writable) :
    WrittenAs s.render (IsSymbol · s) := by
  have htext : (s.name ++ String.ofList (offsetText s.offset)).toList =
      s.name.toList ++ offsetText s.offset := by simp
  refine .intro (render_eq hw) ?_ ?_
  · rw [htext]
    exact inline_render hname
  · rw [htext]
    exact isSymbol_render hname hw

theorem Displacement.spelled {d : Displacement} (h : d.WellFormed) (hw : d.Writable) :
    WrittenAs d.render (IsDisplacement · d) := by
  cases d with
  | immediate i => exact (Numeral.spelled (IsImmediate.showable h)).mono fun _ hi => .immediate hi h
  | symbol s => exact (Symbol.spelled h hw).mono fun _ hs => .symbol hs

theorem Operand.spelled_memory {base : Register} {d : Option Displacement}
    (h : (Operand.memory base d).WellFormed) (hw : (Operand.memory base d).Writable) :
    WrittenAs (Operand.memory base d).render (IsOperand · (.memory base d)) := by
  have hbase := base.inline_render
  cases d with
  | none =>
    have htext : ("(" ++ base.render ++ ")").toList = '(' :: (base.render.toList ++ [')']) := by
      simp
    refine .intro rfl ?_ ?_
    · rw [htext]
      exact ⟨⟨'(', _, rfl, by decide⟩, by simp [hbase.no_tab], by simp [hbase.no_newline]⟩
    · rw [htext]
      exact .base 0 0 base.isRegister_render
  | some d =>
    have hd := Displacement.spelled (h d rfl) (hw d rfl)
    have hrender : (Operand.memory base (some d)).render =
        .ok (String.ofList (written d.render) ++ "(" ++ base.render ++ ")") := by
      rw [Operand.render, hd.ok]
      simp [Except.map, written]
    have htext : (String.ofList (written d.render) ++ "(" ++ base.render ++ ")").toList =
        written d.render ++ '(' :: (base.render.toList ++ [')']) := by
      simp
    refine .intro hrender ?_ ?_
    · rw [htext]
      exact hd.inline.append (by simp [hbase.no_tab]) (by simp [hbase.no_newline])
    · rw [htext]
      exact .memory 0 0 hd.spelled base.isRegister_render

/-- **What is written of an operand is one of its spellings.** -/
theorem Operand.spelled {o : Operand} (h : o.WellFormed) (hw : o.Writable) :
    WrittenAs o.render (IsOperand · o) := by
  cases o with
  | register r => exact .intro rfl r.inline_render (.register r.isRegister_render)
  | memory base d => exact spelled_memory h hw
  | immediate i => exact (Numeral.spelled (IsImmediate.showable h)).mono fun _ hi => .immediate hi h
  | symbol s => exact (Symbol.spelled h hw).mono fun _ hs => .symbol hs
  | character value =>
    obtain ⟨c, hc⟩ := List.length_eq_one_iff.1 h
    have hvalue : value = String.ofList [c] := by rw [← hc, String.ofList_toList]
    refine .intro rfl (inline_quotedLiteral (.inr rfl) value) ?_
    rw [toList_quotedLiteral, hvalue, String.toList_ofList, Text.escape, List.flatMap_singleton]
    exact .character (Text.isCharacter_escape c)
  | float value => exact hw.elim

end MipsSource
