import MipsSource.Proofs.Numerals

/-!
# Cutting a text between lexemes

What happens to the lexemes of `l ++ u` when the text is cut off after `l`? Between two lexemes
there is a `Seam`: no word goes on across it, but a register may stand right before a point. At such
a place no lexeme changes: it is found before the cut as it is found in the whole text, or it goes
past the cut, and then nothing is found (`Cut`).

* `Seam.append_left`, `Clean.drop`: a seam stays one for a longer text before it, and for a shorter
  one that does not begin inside a register.
* `identifier?_cut`, `integer?_cut`, `decimal?_cut`, ...: every scanner can be cut.
-/

set_option autoImplicit false

namespace MipsSource.Lexeme

/-! ## Seams -/

/-- The name of a register after the dollar sign. -/
def IsRegisterName (w : List Char) : Prop :=
  ∃ mark name, w = mark ++ name ∧ Numeral.IsMark mark ∧ name ≠ [] ∧
    ∀ c ∈ name, isNameChar c = true

/-- The text ends in a register. -/
def EndsInRegister (x : List Char) : Prop :=
  ∃ a w, x = a ++ '$' :: w ∧ IsRegisterName w

/-- No word goes on from `x` into `u`; a register may stand before a point. -/
def Seam (x u : List Char) : Prop :=
  startsWord x.reverse = false ∨ startsWord u = false ∨
    (u.head? = some '.' ∧ EndsInRegister x)

theorem startsWord_reverse_append {y : List Char} (hy : y ≠ []) (x : List Char) :
    startsWord (x ++ y).reverse = startsWord y.reverse := by
  rw [List.reverse_append]
  cases hr : y.reverse with
  | nil => exact absurd (List.reverse_eq_nil_iff.1 hr) hy
  | cons c r => rfl

theorem seam_nil (u : List Char) : Seam [] u := .inl rfl

/-- What stands further to the left does not matter. -/
theorem Seam.append_left {y u : List Char} (h : Seam y u) (hy : y ≠ []) (x : List Char) :
    Seam (x ++ y) u := by
  rcases h with h | h | ⟨hu, a, w, rfl, hw⟩
  · exact .inl ((startsWord_reverse_append hy x).trans h)
  · exact .inr (.inl h)
  · exact .inr (.inr ⟨hu, x ++ a, w, by rw [List.append_assoc], hw⟩)

/-- A last character that is none of a word makes a seam. -/
theorem seam_of_last {c : Char} (hc : isWordChar c = false) (x u : List Char) :
    Seam (x ++ [c]) u := by
  refine .inl ?_
  rw [List.reverse_append]
  exact hc

/-- There is a seam after `n` characters. -/
def SeamAt (text : List Char) (n : Nat) : Prop :=
  Seam (text.take n) (text.drop n)

theorem SeamAt.add {text : List Char} {a b : Nat} (ha : SeamAt text a)
    (hb : SeamAt (text.drop a) b) : SeamAt text (a + b) := by
  unfold SeamAt at hb ⊢
  rw [List.drop_drop] at hb
  rw [List.take_add]
  by_cases hnil : (text.drop a).take b = []
  · -- nothing more is read
    have hdrop := List.take_append_drop b (text.drop a)
    rw [hnil, List.nil_append, List.drop_drop] at hdrop
    rw [hnil, List.append_nil, hdrop]
    exact ha
  · exact hb.append_left hnil _

/-- The text `l` can be cut off before `u`: there is a seam, and no spaces go on. -/
structure Clean (l u : List Char) : Prop where
  space : u.head? ≠ some ' '
  seam : Seam l u

/-- The first `n` characters do not end inside a register at the end of the text. -/
def Whole (l : List Char) (n : Nat) : Prop :=
  ∀ a w, l = a ++ '$' :: w → IsRegisterName w → n ≤ a.length ∨ n = l.length

/-- What is left after whole lexemes can be cut off as before. -/
theorem Clean.drop {l u : List Char} {n : Nat} (h : Clean l u) (hw : Whole l n) :
    Clean (l.drop n) u := by
  refine ⟨h.space, ?_⟩
  rcases h.seam with hs | hs | ⟨hu, a, w, rfl, hreg⟩
  · by_cases hd : l.drop n = []
    · rw [hd]
      exact seam_nil u
    · -- the last character of the rest is the last of the text
      rw [← List.take_append_drop n l, startsWord_reverse_append hd] at hs
      exact .inl hs
  · exact .inr (.inl hs)
  · rcases hw a w rfl hreg with hn | hn
    · rw [List.drop_append_of_le_length hn]
      exact .inr (.inr ⟨hu, _, w, rfl, hreg⟩)
    · rw [hn, List.drop_length]
      exact seam_nil u

/-! ## Runs of characters -/

/-- The first `n` characters satisfy `p`. -/
def Spans (p : Char → Bool) (text : List Char) (n : Nat) : Prop :=
  ∀ c ∈ text.take n, p c = true

theorem Spans.add {p : Char → Bool} {text : List Char} {a b : Nat} (ha : Spans p text a)
    (hb : Spans p (text.drop a) b) : Spans p text (a + b) := by
  intro c hc
  rw [List.take_add] at hc
  rcases List.mem_append.1 hc with hc | hc
  · exact ha c hc
  · exact hb c hc

theorem spans_zero (p : Char → Bool) (text : List Char) : Spans p text 0 := by
  simp [Spans]

theorem spans_cons {p : Char → Bool} {c : Char} {rest : List Char} {n : Nat} (hc : p c = true)
    (h : Spans p rest n) : Spans p (c :: rest) (1 + n) := by
  intro x hx
  rw [Nat.add_comm, List.take_succ_cons] at hx
  rcases List.mem_cons.1 hx with rfl | hx
  · exact hc
  · exact h x hx

theorem spans_takeWhile {p q : Char → Bool} (hq : ∀ c, q c = true → p c = true)
    (text : List Char) : Spans p text (text.takeWhile q).length := by
  intro c hc
  rw [(List.prefix_iff_eq_take.1 (List.takeWhile_prefix q)).symm] at hc
  exact hq c (List.all_eq_true.1 List.all_takeWhile c hc)

theorem spans_sign {p : Char → Bool} (hp : ∀ c, Numeral.isSign c = true → p c = true)
    (text : List Char) : Spans p text (sign text).length := by
  cases text with
  | nil => exact spans_zero p []
  | cons c rest =>
    rw [sign]
    split
    · rename_i hc
      exact spans_cons (hp c hc) (spans_zero p rest)
    · exact spans_zero p _

/-- The characters of words, numbers and the spaces in them. -/
def isPlain (c : Char) : Bool :=
  isWordChar c || Numeral.isSign c || c = ' '

theorem isPlain_of_wordChar {c : Char} (h : isWordChar c = true) : isPlain c = true := by
  simp [isPlain, h]

theorem isPlain_of_nameChar {c : Char} (h : isNameChar c = true) : isPlain c = true :=
  isPlain_of_wordChar (by simp [isWordChar, h])

theorem isPlain_of_digit {c : Char} (h : c.isDigit = true) : isPlain c = true :=
  isPlain_of_nameChar (by simp [isNameChar, Char.isAlphanum, h])

theorem isPlain_of_sign {c : Char} (h : Numeral.isSign c = true) : isPlain c = true := by
  simp [isPlain, h]

theorem isPlain_of_space {c : Char} (h : decide (c = ' ') = true) : isPlain c = true := by
  simp only [decide_eq_true_eq] at h
  simp [isPlain, h]

theorem spans_spaces (text : List Char) : Spans isPlain text (spaces text).length :=
  spans_takeWhile (fun _ => isPlain_of_space) text

/-- A run without a dollar sign does not end inside a register. -/
theorem length_le_of_not_mem {a w : List Char} {n : Nat} (h : '$' ∉ (a ++ '$' :: w).take n) :
    n ≤ a.length := by
  refine Nat.le_of_not_lt fun hlt => h ?_
  obtain ⟨m, rfl⟩ : ∃ m, n = a.length + (m + 1) := ⟨n - (a.length + 1), by omega⟩
  rw [List.take_length_add_append, List.take_succ_cons]
  simp

theorem whole_of_not_mem {l : List Char} {n : Nat} (h : '$' ∉ l.take n) : Whole l n := by
  rintro a w rfl -
  exact .inl (length_le_of_not_mem h)

theorem Spans.whole {l : List Char} {n : Nat} (h : Spans isPlain l n) : Whole l n :=
  whole_of_not_mem fun hmem => absurd (h '$' hmem) (by decide)

theorem drop_length_takeWhile (p : Char → Bool) (text : List Char) :
    text.drop (text.takeWhile p).length = text.dropWhile p := by
  have h := List.takeWhile_append_dropWhile (p := p) (l := text)
  calc text.drop (text.takeWhile p).length
      = (text.takeWhile p ++ text.dropWhile p).drop (text.takeWhile p).length := by rw [h]
    _ = text.dropWhile p := List.drop_left

/-! ## Words at a cut -/

/-- No word that `l` is goes on into `u`. -/
def WordEnds (l u : List Char) : Prop :=
  (∀ c ∈ l, isWordChar c = true) → startsWord u = false

theorem Seam.wordEnds {l u : List Char} (h : Seam l u) (hl : l ≠ []) : WordEnds l u := by
  intro hall
  rcases h with hs | hs | ⟨-, a, w, rfl, -⟩
  · cases hr : l.reverse with
    | nil => exact absurd (List.reverse_eq_nil_iff.1 hr) hl
    | cons c r =>
      have hc := hall c (List.mem_reverse.1 (by rw [hr]; exact List.mem_cons_self))
      rw [hr] at hs
      change isWordChar c = false at hs
      rw [hs] at hc
      cases hc
  · exact hs
  · exact absurd (hall '$' (by simp)) (by decide)

theorem WordEnds.tail {c : Char} {l u : List Char} (h : WordEnds (c :: l) u)
    (hc : isWordChar c = true) : WordEnds l u := by
  intro hall
  refine h fun x hx => ?_
  rcases List.mem_cons.1 hx with rfl | hx
  · exact hc
  · exact hall x hx

section
variable {u : List Char} {p : Char → Bool} (hp : ∀ c, p c = true → isWordChar c = true)
include hp

theorem takeWhile_wordEnds : ∀ {l : List Char}, WordEnds l u → (l ++ u).takeWhile p = l.takeWhile p
  | [], h => by
    have hu := h (by simp)
    cases u with
    | nil => rfl
    | cons c u =>
      have hc : p c = false := by
        cases hpc : p c with
        | false => rfl
        | true => exact (hp c hpc).symm.trans hu
      simp [hc]
  | c :: l, h => by
    rw [List.cons_append, List.takeWhile_cons, List.takeWhile_cons]
    split
    · rename_i hc
      rw [takeWhile_wordEnds (h.tail (hp c hc))]
    · rfl

theorem dropWhile_wordEnds :
    ∀ {l : List Char}, WordEnds l u → (l ++ u).dropWhile p = l.dropWhile p ++ u
  | [], h => by
    have hu := takeWhile_wordEnds hp h
    rw [List.nil_append, List.takeWhile_nil] at hu
    rw [List.nil_append, ← drop_length_takeWhile, hu]
    rfl
  | c :: l, h => by
    rw [List.cons_append, List.dropWhile_cons, List.dropWhile_cons]
    split
    · rename_i hc
      exact dropWhile_wordEnds (h.tail (hp c hc))
    · rfl

theorem WordEnds.dropWhile : ∀ {l : List Char}, WordEnds l u → WordEnds (l.dropWhile p) u
  | [], h => h
  | c :: l, h => by
    rw [List.dropWhile_cons]
    split
    · rename_i hc
      exact WordEnds.dropWhile (h.tail (hp c hc))
    · exact h

end

theorem WordEnds.drop_takeWhile {l u : List Char} (h : WordEnds l u) {p : Char → Bool}
    (hp : ∀ c, p c = true → isWordChar c = true) :
    WordEnds (l.drop (l.takeWhile p).length) u := by
  rw [drop_length_takeWhile]
  exact h.dropWhile hp

theorem WordEnds.startsWord {l u : List Char} (h : WordEnds l u) :
    startsWord (l ++ u) = startsWord l := by
  cases l with
  | nil => exact h (by simp)
  | cons c l => rfl

theorem ne_of_startsWord {c d : Char} {u : List Char} (h : startsWord (c :: u) = false)
    (hd : isWordChar d = true) : c ≠ d :=
  (ne_of_test hd h).symm

theorem startsWord_dropWhile (text : List Char) :
    startsWord (text.dropWhile isWordChar) = false := by
  induction text with
  | nil => rfl
  | cons c rest ih =>
    rw [List.dropWhile_cons]
    split
    · exact ih
    · rename_i hc
      simpa [Lexeme.startsWord] using hc

theorem spaces_clean {u : List Char} (h : u.head? ≠ some ' ') (l : List Char) :
    spaces (l ++ u) = spaces l := by
  refine takeWhile_append_of_head (fun c hc => ?_) l
  simp only [decide_eq_false_iff_not]
  rintro rfl
  exact h hc

/-- A run of characters of a name ends at a seam, also inside a register. -/
theorem Seam.takeWhile_name {x y u : List Char} (h : Seam (x ++ y) u) (hy : y ≠ []) :
    (y ++ u).takeWhile isNameChar = y.takeWhile isNameChar := by
  rcases h with h | h | ⟨hu, -⟩
  · have hseam : Seam y u := .inl ((startsWord_reverse_append hy x).symm.trans h)
    exact takeWhile_wordEnds (fun _ => isWordChar_of_nameChar) (hseam.wordEnds hy)
  · have hseam : Seam y u := .inr (.inl h)
    exact takeWhile_wordEnds (fun _ => isWordChar_of_nameChar) (hseam.wordEnds hy)
  · refine takeWhile_append_of_head (fun c hc => ?_) y
    rw [hu] at hc
    cases hc
    decide

theorem sign_append_of_ne_nil {l : List Char} (hl : l ≠ []) (u : List Char) :
    sign (l ++ u) = sign l := by
  cases l with
  | nil => exact absurd rfl hl
  | cons c l => rfl

/-- Before a text that is a sign at most, a longer text has as much of a sign at least. -/
theorem length_le_sign_append {l : List Char} (h : l.drop (sign l).length = []) (u : List Char) :
    l.length ≤ (sign (l ++ u)).length := by
  have hlen := List.drop_eq_nil_iff.1 h
  by_cases hl : l = []
  · simp [hl]
  · rw [sign_append_of_ne_nil hl]
    exact hlen

theorem Clean.drop_sign {l u : List Char} (h : Clean l u) : Clean (l.drop (sign l).length) u :=
  h.drop (spans_sign (fun _ => isPlain_of_sign) l).whole

theorem ne_nil_of_isNumeral {word : List Char} (h : isNumeral word = true) : word ≠ [] := by
  rintro rfl
  cases h

/-! ## Cutting scanners -/

/-- The scanner at a cut after `l`: it finds what it finds in the whole text, or nothing where that
goes past the cut. `size` is the number of characters of what is found. -/
def Cut {β : Type} (size : β → Nat) (scanner : List Char → Option β) (l u : List Char) : Prop :=
  scanner (l ++ u) = scanner l ∨
    (scanner l = none ∧ ∀ b, scanner (l ++ u) = some b → l.length < size b)

/-- A scanner that looks for a piece of text only. -/
theorem cut_of_piece {β : Type} {scanner : List Char → Option β} {P : β → Prop}
    {piece : β → List Char} (h : ∀ text b, scanner text = some b ↔ P b ∧ piece b <+: text)
    (l u : List Char) : Cut (fun b => (piece b).length) scanner l u := by
  cases hl : scanner l with
  | some b =>
    obtain ⟨hp, hpiece⟩ := (h l b).1 hl
    refine .inl ?_
    rw [hl]
    exact (h _ b).2 ⟨hp, hpiece.trans (List.prefix_append l u)⟩
  | none =>
    refine .inr ⟨hl, fun b hb => Nat.lt_of_not_le fun hle => ?_⟩
    obtain ⟨hp, hpiece⟩ := (h _ b).1 hb
    have hshort := List.prefix_of_prefix_length_le hpiece (List.prefix_append l u) hle
    rw [(h l b).2 ⟨hp, hshort⟩] at hl
    cases hl

section
variable {l u : List Char} (h : Clean l u)
include h

theorem identifier?_cut : Cut List.length identifier? l u := by
  cases l with
  | nil =>
    refine .inr ⟨rfl, fun name hn => ?_⟩
    exact List.length_pos_iff.2 (identifier?_spec hn).1.ne_nil
  | cons c l =>
    refine .inl ?_
    rw [List.cons_append, identifier?, identifier?]
    split
    · rename_i hc
      have hend := (h.seam.wordEnds (List.cons_ne_nil c l)).tail (isWordChar_of_wordStart hc)
      rw [takeWhile_wordEnds (fun _ h => h) hend]
    · rfl

theorem label?_cut : Cut Prod.snd label? l u := by
  rcases identifier?_cut h with hid | ⟨hnone, hpast⟩
  · unfold Cut
    rw [label?, label?, hid]
    cases hw : identifier? l with
    | none => exact .inl rfl
    | some name =>
      have hname := (identifier?_spec hw).2
      have hgap := length_spaces_le (l.drop name.length)
      rw [List.length_drop] at hgap
      simp only
      rw [List.drop_append_of_le_length hname, spaces_clean h.space,
        List.drop_append_of_le_length (by omega)]
      cases hrest : l.drop (name.length + (spaces (l.drop name.length)).length) with
      | cons c rest => exact .inl (by by_cases hc : c = ':' <;> simp [hc])
      | nil =>
        -- the colon may stand right after the cut
        have hlen := List.drop_eq_nil_iff.1 hrest
        refine .inr ⟨rfl, fun b hb => ?_⟩
        simp only [List.nil_append] at hb
        split at hb
        · cases hb
          simp only
          omega
        · cases hb
  · refine .inr ⟨by rw [label?, hnone], fun b hb => ?_⟩
    unfold label? at hb
    split at hb
    · cases hb
    · rename_i name hname
      have hlt := hpast name hname
      simp only at hb
      split at hb
      · cases hb
        simp only
        omega
      · cases hb

theorem directiveName?_cut : Cut List.length directiveName? l u := by
  match l, h with
  | [], _ =>
    refine .inr ⟨rfl, fun name hn => ?_⟩
    exact List.length_pos_iff.2 (directiveName?_spec hn).1
  | [c], _ =>
    refine .inr ⟨by simp [directiveName?], fun name hn => ?_⟩
    rw [directiveName?.eq_def] at hn
    split at hn
    · split at hn
      · cases hn
        simp
      · cases hn
    · cases hn
  | c :: d :: rest, h =>
    refine .inl ?_
    by_cases hc : c = '.'
    · subst hc
      rw [List.cons_append, List.cons_append, directiveName?, directiveName?]
      by_cases hd : isWordStart d = true
      · have hname : ∀ c, isNameChar c = true → isWordChar c = true :=
          fun _ => isWordChar_of_nameChar
        have hend := ((h.seam.wordEnds (List.cons_ne_nil _ _)).tail (by decide)).tail
          (isWordChar_of_wordStart hd)
        rw [takeWhile_wordEnds hname hend, dropWhile_wordEnds hname hend,
          (hend.dropWhile hname).startsWord]
      · simp [hd]
    · simp [directiveName?, hc]

theorem registerName?_cut : Cut (fun name => name.length + 1) registerName? l u := by
  cases l with
  | nil => exact .inr ⟨rfl, fun name _ => Nat.succ_pos _⟩
  | cons c rest =>
    by_cases hc : c = '$'
    · subst hc
      unfold Cut
      rw [List.cons_append, registerName?, registerName?]
      by_cases hrun : rest.drop (sign rest).length = []
      · -- the name of the register has not begun before the cut
        refine .inr ⟨by simp [hrun], fun name hname => ?_⟩
        have hlen := length_le_sign_append hrun u
        split at hname
        · cases hname
        · rename_i hne
          cases hname
          have hpos := List.length_pos_iff.2 hne
          simp only [List.length_append, List.length_cons]
          omega
      · have hrest : rest ≠ [] := by
          rintro rfl
          exact hrun rfl
        have hseam : Seam (('$' :: rest.take (sign rest).length) ++ rest.drop (sign rest).length)
            u := by
          rw [List.cons_append, List.take_append_drop]
          exact h.seam
        refine .inl ?_
        rw [sign_append_of_ne_nil hrest, List.drop_append_of_le_length (length_sign_le rest),
          hseam.takeWhile_name hrun]
    · exact .inl (by simp [registerName?, hc])

theorem integer?_cut : Cut List.length integer? l u := by
  unfold Cut
  simp only [integer?]
  by_cases hrun : l.drop (sign l).length = []
  · refine .inr ⟨by rw [hrun]; rfl, fun literal hl => ?_⟩
    have hlen := length_le_sign_append hrun u
    split at hl
    · rename_i hw
      cases hl
      have hpos := List.length_pos_iff.2 (ne_nil_of_isNumeral hw)
      simp only [List.length_append]
      omega
    · cases hl
  · have hl : l ≠ [] := by
      rintro rfl
      exact hrun rfl
    refine .inl ?_
    rw [sign_append_of_ne_nil hl, List.drop_append_of_le_length (length_sign_le l),
      takeWhile_wordEnds (fun _ h => h) (h.drop_sign.seam.wordEnds hrun)]

theorem symbolOffset?_cut : Cut Prod.snd symbolOffset? l u := by
  unfold Cut
  simp only [symbolOffset?]
  rw [spaces_clean h.space, List.drop_append_of_le_length (length_spaces_le l)]
  cases hr : l.drop (spaces l).length with
  | nil =>
    -- the sign has not begun before the cut
    have hlen := List.drop_eq_nil_iff.1 hr
    refine .inr ⟨rfl, fun b hb => ?_⟩
    simp only [List.nil_append] at hb
    split at hb
    · split at hb
      · cases hb
        simp only
        omega
      · cases hb
    · cases hb
  | cons mark rest =>
    have hlen := congrArg List.length hr
    rw [List.length_drop, List.length_cons] at hlen
    simp only [List.cons_append]
    rw [spaces_clean h.space, List.drop_append_of_le_length (length_spaces_le rest)]
    by_cases hsign : Numeral.isSign mark = true
    · by_cases hrun : rest.drop (spaces rest).length = []
      · -- the numeral has not begun before the cut
        have hafter := List.drop_eq_nil_iff.1 hrun
        refine .inr ⟨by rw [hrun]; simp [isOffset, isDigits, isMarked], fun b hb => ?_⟩
        split at hb
        · rename_i hc
          cases hb
          have hword := ne_nil_of_isNumeral
            (Numeral.isNumeral_of_isOffset (Bool.and_eq_true_iff.1 hc).2)
          have hpos := List.length_pos_iff.2 hword
          rw [hrun, List.nil_append] at hpos
          simp only [hrun, List.nil_append]
          omega
        · cases hb
      · have hclean : Clean (rest.drop (spaces rest).length) u := by
          have hspan : Spans isPlain (l.drop (spaces l).length) (1 + (spaces rest).length) := by
            rw [hr]
            exact spans_cons (isPlain_of_sign hsign) (spans_spaces rest)
          have hdrop := h.drop ((spans_spaces l).add hspan).whole
          rw [← List.drop_drop, hr, Nat.add_comm 1, List.drop_succ_cons] at hdrop
          exact hdrop
        refine .inl ?_
        rw [takeWhile_wordEnds (fun _ h => h) (hclean.seam.wordEnds hrun)]
    · exact .inl (by simp [hsign])

end

/-! ## Numbers with a fraction or an exponent -/

theorem fraction?_wordEnds {x u : List Char} (hx : WordEnds x u) :
    fraction? (x ++ u) = fraction? x := by
  cases x with
  | nil =>
    have hu := hx (by simp)
    cases u with
    | nil => rfl
    | cons c u =>
      have hc : c ≠ '.' := ne_of_startsWord hu (by decide)
      simp [fraction?, hc]
  | cons c x =>
    by_cases hc : c = '.'
    · subst hc
      rw [List.cons_append, fraction?, fraction?,
        takeWhile_wordEnds (fun _ => isWordChar_of_digit) (hx.tail (by decide))]
    · simp [fraction?, hc]

theorem WordEnds.drop_fraction {x u : List Char} (hx : WordEnds x u) :
    WordEnds (x.drop (fractionLength x)) u := by
  unfold fractionLength
  split
  · rename_i digits hf
    rw [fraction?.eq_def] at hf
    split at hf
    · rename_i rest
      simp only at hf
      split at hf
      · cases hf
      · cases hf
        rw [List.drop_succ_cons]
        exact (hx.tail (by decide)).drop_takeWhile fun _ => isWordChar_of_digit
    · cases hf
  · exact hx

theorem spans_fraction (text : List Char) : Spans isPlain text (fractionLength text) := by
  unfold fractionLength
  split
  · rename_i digits hf
    rw [fraction?.eq_def] at hf
    split at hf
    · rename_i rest
      simp only at hf
      split at hf
      · cases hf
      · cases hf
        rw [Nat.add_comm]
        exact spans_cons (by decide) (spans_takeWhile (fun _ => isPlain_of_digit) rest)
    · cases hf
  · exact spans_zero _ text

theorem exponent?_parts {text : List Char} {value : Int} {n : Nat}
    (h : exponent? text = some (value, n)) :
    ∃ letter rest, text = letter :: rest ∧ (letter = 'e' ∨ letter = 'E') ∧
      (rest.drop (sign rest).length).takeWhile Char.isDigit ≠ [] ∧
      n = 1 + ((sign rest).length +
        ((rest.drop (sign rest).length).takeWhile Char.isDigit).length) := by
  cases text with
  | nil => cases h
  | cons letter rest =>
    simp only [exponent?] at h
    split at h
    · rename_i hc
      cases h
      exact ⟨letter, rest, rfl, hc.1, hc.2, by omega⟩
    · cases h

theorem isWordChar_of_exponent {letter : Char} (h : letter = 'e' ∨ letter = 'E') :
    isWordChar letter = true := by
  rcases h with rfl | rfl <;> decide

theorem spans_exponent (text : List Char) : Spans isPlain text (exponentLength text) := by
  unfold exponentLength
  split
  · rename_i value n he
    obtain ⟨letter, rest, rfl, hletter, -, rfl⟩ := exponent?_parts he
    refine spans_cons (isPlain_of_wordChar (isWordChar_of_exponent hletter)) ?_
    exact (spans_sign (fun _ => isPlain_of_sign) rest).add
      (spans_takeWhile (fun _ => isPlain_of_digit) _)
  · exact spans_zero _ text

/-- An exponent at a cut: it is the same, or its digits stand beyond the cut; then a word is left
before it. -/
theorem exponent?_cut {x u : List Char} (h : Clean x u) (hx : WordEnds x u) :
    (exponent? (x ++ u) = exponent? x ∧ WordEnds (x.drop (exponentLength x)) u) ∨
      (exponent? x = none ∧ startsWord x = true ∧
        ∀ value n, exponent? (x ++ u) = some (value, n) → x.length < n) := by
  cases x with
  | nil =>
    refine .inl ⟨?_, hx⟩
    have hu := hx (by simp)
    cases u with
    | nil => rfl
    | cons c u =>
      have he : c ≠ 'e' := ne_of_startsWord hu (by decide)
      have hE : c ≠ 'E' := ne_of_startsWord hu (by decide)
      simp [exponent?, he, hE]
  | cons c rest =>
    by_cases hc : c = 'e' ∨ c = 'E'
    · have hword := isWordChar_of_exponent hc
      by_cases hrun : rest.drop (sign rest).length = []
      · refine .inr ⟨by simp [exponent?, hrun], hword, fun value n he => ?_⟩
        have hlen := length_le_sign_append hrun u
        rw [List.cons_append] at he
        obtain ⟨letter, rest', hcons, -, hdigits, rfl⟩ := exponent?_parts he
        obtain ⟨rfl, rfl⟩ := List.cons.inj hcons
        have hpos := List.length_pos_iff.2 hdigits
        rw [List.length_cons]
        omega
      · have hrest : rest ≠ [] := by
          rintro rfl
          exact hrun rfl
        have hclean : Clean rest u := by
          have hspan : Spans isPlain (c :: rest) (1 + 0) :=
            spans_cons (isPlain_of_wordChar hword) (spans_zero _ rest)
          exact h.drop hspan.whole
        have hends : WordEnds (rest.drop (sign rest).length) u :=
          hclean.drop_sign.seam.wordEnds hrun
        refine .inl ⟨?_, ?_⟩
        · simp only [List.cons_append, exponent?]
          rw [sign_append_of_ne_nil hrest, List.drop_append_of_le_length (length_sign_le rest),
            takeWhile_wordEnds (fun _ => isWordChar_of_digit) hends]
        · unfold exponentLength
          split
          · rename_i value n he
            obtain ⟨letter, rest', hcons, -, -, rfl⟩ := exponent?_parts he
            obtain ⟨rfl, rfl⟩ := List.cons.inj hcons
            rw [Nat.add_comm 1, List.drop_succ_cons, ← List.drop_drop]
            exact hends.drop_takeWhile fun _ => isWordChar_of_digit
          · exact hx
    · refine .inl ⟨by simp [exponent?, hc], ?_⟩
      have hzero : exponentLength (c :: rest) = 0 := by simp [exponentLength, exponent?, hc]
      rw [hzero]
      exact hx

theorem drop_decimal (text : List Char) :
    text.drop ((sign text).length + (wholeDigits text).length + fractionLength (afterWhole text)) =
      afterFraction text := by
  rw [← List.drop_drop, ← afterWhole, ← afterFraction]

/-- A number up to its exponent. -/
theorem spans_significand (text : List Char) :
    Spans isPlain text ((sign text).length + (wholeDigits text).length +
      fractionLength (afterWhole text)) := by
  have hsign := spans_sign (fun _ => isPlain_of_sign) text
  have hwhole : Spans isPlain (text.drop (sign text).length) (wholeDigits text).length :=
    spans_takeWhile (fun _ => isPlain_of_digit) _
  exact (hsign.add hwhole).add (spans_fraction (afterWhole text))

theorem spans_decimal (text : List Char) : Spans isPlain text (decimalLength text) := by
  refine (spans_significand text).add ?_
  rw [drop_decimal]
  exact spans_exponent (afterFraction text)

/-- A number up to its exponent is the same before a cut, once its sign and something more stand
before the cut. -/
theorem significand_cut {l u : List Char} (h : Clean l u) (hrun : l.drop (sign l).length ≠ []) :
    sign (l ++ u) = sign l ∧ wholeDigits (l ++ u) = wholeDigits l ∧
      fraction? (afterWhole (l ++ u)) = fraction? (afterWhole l) ∧
      afterFraction (l ++ u) = afterFraction l ++ u ∧ WordEnds (afterFraction l) u := by
  have hl : l ≠ [] := by
    rintro rfl
    exact hrun rfl
  have hdigit : ∀ c : Char, c.isDigit = true → isWordChar c = true := fun _ => isWordChar_of_digit
  have hends := h.drop_sign.seam.wordEnds hrun
  have hsign : sign (l ++ u) = sign l := sign_append_of_ne_nil hl u
  have hwhole : wholeDigits (l ++ u) = wholeDigits l := by
    rw [wholeDigits, hsign, List.drop_append_of_le_length (length_sign_le l),
      takeWhile_wordEnds hdigit hends, wholeDigits]
  have hlen := length_sign_takeWhile_le Char.isDigit l
  rw [← wholeDigits] at hlen
  have hafter : afterWhole (l ++ u) = afterWhole l ++ u := by
    rw [afterWhole, hsign, hwhole, List.drop_append_of_le_length hlen, afterWhole]
  have hafterEnds : WordEnds (afterWhole l) u := by
    rw [afterWhole, ← List.drop_drop]
    exact hends.drop_takeWhile hdigit
  have hfraction := fraction?_wordEnds hafterEnds
  refine ⟨hsign, hwhole, by rw [hafter, hfraction], ?_, hafterEnds.drop_fraction⟩
  rw [afterFraction, hafter, fractionLength, hfraction, ← fractionLength,
    List.drop_append_of_le_length (fractionLength_le _), afterFraction]

theorem decimalLength_cut {l u : List Char} (h : Clean l u)
    (hrun : l.drop (sign l).length ≠ []) :
    decimalLength (l ++ u) = (sign l).length + (wholeDigits l).length +
      fractionLength (afterWhole l) + exponentLength (afterFraction l ++ u) := by
  obtain ⟨hsign, hwhole, hfraction, hrest, -⟩ := significand_cut h hrun
  rw [decimalLength, hsign, hwhole, hrest, fractionLength, hfraction, ← fractionLength]

/-- With the same exponent, the number is the same before the cut. -/
theorem decimal?_append_of_exponent {l u : List Char} (h : Clean l u)
    (hrun : l.drop (sign l).length ≠ [])
    (he : exponent? (afterFraction l ++ u) = exponent? (afterFraction l))
    (hword : WordEnds ((afterFraction l).drop (exponentLength (afterFraction l))) u) :
    decimal? (l ++ u) = decimal? l := by
  obtain ⟨hsign, hwhole, hfraction, hrest, -⟩ := significand_cut h hrun
  have hlength : decimalLength (l ++ u) = decimalLength l := by
    rw [decimalLength_cut h hrun, exponentLength, he, ← exponentLength, decimalLength]
  have hdrop : WordEnds (l.drop (decimalLength l)) u := by
    rw [decimalLength, ← List.drop_drop, drop_decimal]
    exact hword
  rw [decimal?_eq, decimal?_eq, hlength, List.drop_append_of_le_length (decimalLength_le l),
    hdrop.startsWord, hsign, hwhole, hfraction, hrest, he]

theorem decimal?_cut {l u : List Char} (h : Clean l u) : Cut Prod.snd decimal? l u := by
  by_cases hrun : l.drop (sign l).length = []
  · -- the digits have not begun before the cut
    have hwhole : wholeDigits l = [] := by rw [wholeDigits, hrun]; rfl
    refine .inr ⟨by rw [decimal?_eq, if_neg fun hc => hc.1 hwhole], fun b hb => ?_⟩
    have hlen := length_le_sign_append hrun u
    rw [decimal?_eq] at hb
    split at hb
    · rename_i hc
      cases hb
      have hpos := List.length_pos_iff.2 hc.1
      simp only [decimalLength]
      omega
    · cases hb
  · obtain ⟨-, -, -, hrest, hends⟩ := significand_cut h hrun
    have hlength := decimalLength_cut h hrun
    have hclean : Clean (afterFraction l) u := by
      rw [← drop_decimal]
      exact h.drop (spans_significand l).whole
    rcases exponent?_cut hclean hends with ⟨he, hword⟩ | ⟨hnone, hword, hpast⟩
    · exact .inl (decimal?_append_of_exponent h hrun he hword)
    · -- the digits of the exponent stand beyond the cut
      have hleft : startsWord (l.drop (decimalLength l)) = true := by
        rw [decimalLength, exponentLength, hnone, Nat.add_zero, drop_decimal]
        exact hword
      refine .inr ⟨by rw [decimal?_eq, if_neg fun hc => hc.2.2 hleft], fun b hb => ?_⟩
      rw [decimal?_eq] at hb
      split at hb
      · rename_i hc
        cases hb
        cases he : exponent? (afterFraction l ++ u) with
        | none =>
          refine absurd ?_ hc.2.2
          rw [decimalLength, ← List.drop_drop, drop_decimal, hrest, exponentLength, he,
            List.drop_zero, hends.startsWord]
          exact hword
        | some found =>
          obtain ⟨value, n⟩ := found
          have hlt := hpast value n he
          rw [← drop_decimal, List.length_drop] at hlt
          simp only [hlength, exponentLength, he]
          omega
      · cases hb

/-! ## Quoted literals -/

theorem character?_cut (l u : List Char) : Cut (fun body => body.length + 2) character? l u := by
  have h := cut_of_piece @character?_eq_some_iff l u
  simpa using h

theorem string?_cut (l u : List Char) : Cut (fun body => body.length + 2) string? l u := by
  have h := cut_of_piece @string?_eq_some_iff l u
  simpa using h

end MipsSource.Lexeme
