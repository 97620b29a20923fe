import MipsSource.Proofs.Zones

/-!
# One space for many

`Text.squeeze` keeps one space of every run of spaces outside literals. Lexemes do not tell a text
from what it is squeezed to: a scanner finds the same value in both, and leaves texts of which one
is again the other one squeezed (`Aligned`).

* `Kept.squeeze_append`, `Kept.prefix_squeeze_iff`: pieces whose spaces lie inside literals stay.
* `blind_of_append`, `blind_of_literal`: words, numbers and literals are found as they are.
* `label?_aligned`, `symbolOffset?_aligned`: lexemes with spaces inside are found as well.
* `drop_blankLength_squeeze`: blanks end at the same place.
-/

set_option autoImplicit false

namespace MipsSource

open MipsSource.Lexeme

namespace Text

/-- The text with a single space for every run of spaces outside literals; it starts in the zone
`z`. -/
def squeeze : Zone → List Char → List Char
  | _, [] => []
  | z, c :: rest =>
    if c = ' ' ∧ z.inLiteral = false ∧ rest.head? = some ' ' then squeeze (z.step c) rest
    else c :: squeeze (z.step c) rest

theorem squeeze_cons_of_ne {c : Char} (h : c ≠ ' ') (z : Zone) (rest : List Char) :
    squeeze z (c :: rest) = c :: squeeze (z.step c) rest := by
  rw [squeeze, if_neg fun hc => h hc.1]

@[simp]
theorem head?_squeeze (z : Zone) (text : List Char) : (squeeze z text).head? = text.head? := by
  induction text generalizing z with
  | nil => rfl
  | cons c rest ih =>
    rw [squeeze]
    split
    · rename_i h
      rw [ih, h.2.2, h.1]
      rfl
    · rfl

/-- Squeezing keeps the lines. -/
theorem count_newline_squeeze (z : Zone) (text : List Char) :
    (squeeze z text).count '\n' = text.count '\n' := by
  induction text generalizing z with
  | nil => rfl
  | cons c rest ih =>
    rw [squeeze]
    split
    · rename_i h
      rw [ih, h.1, List.count_cons_of_ne (by decide)]
    · rw [List.count_cons, List.count_cons, ih]

/-! ## Pieces that stay -/

/-- All spaces of the piece lie inside literals, if it starts in the zone `z`. -/
def Kept (z : Zone) (piece : List Char) : Prop :=
  ∀ a b, piece = a ++ ' ' :: b → (z.after a).inLiteral = true

theorem kept_of_no_space {piece : List Char} (h : ' ' ∉ piece) (z : Zone) : Kept z piece := by
  rintro a b rfl
  simp at h

theorem Kept.head {z : Zone} {c : Char} {piece : List Char} (h : Kept z (c :: piece)) :
    ¬ (c = ' ' ∧ z.inLiteral = false) := by
  rintro ⟨rfl, hz⟩
  have hin := h [] piece rfl
  rw [Zone.after_nil, hz] at hin
  cases hin

theorem Kept.tail {z : Zone} {c : Char} {piece : List Char} (h : Kept z (c :: piece)) :
    Kept (z.step c) piece := by
  rintro a b rfl
  exact h (c :: a) b rfl

theorem Kept.squeeze_append {z : Zone} {piece : List Char} (h : Kept z piece) (rest : List Char) :
    squeeze z (piece ++ rest) = piece ++ squeeze (z.after piece) rest := by
  induction piece generalizing z with
  | nil => rfl
  | cons c piece ih =>
    rw [List.cons_append, squeeze, if_neg fun hc => h.head ⟨hc.1, hc.2.1⟩, ih h.tail]
    rfl

/-- Squeezing neither breaks nor makes such a piece. -/
theorem Kept.prefix_squeeze_iff {z : Zone} {piece : List Char} (h : Kept z piece)
    (text : List Char) : piece <+: squeeze z text ↔ piece <+: text := by
  induction piece generalizing z text with
  | nil => simp
  | cons c piece ih =>
    cases text with
    | nil => rfl
    | cons d rest =>
      rw [squeeze]
      split
      · -- a space goes, and the piece starts with none
        rename_i hd
        have hc : c ≠ ' ' := fun he => h.head ⟨he, hd.2.1⟩
        constructor
        · rintro ⟨tail, htail⟩
          have hhead := congrArg List.head? htail
          rw [head?_squeeze, hd.2.2] at hhead
          exact absurd (Option.some.inj hhead) hc
        · intro hp
          exact absurd ((List.cons_prefix_cons.1 hp).1.trans hd.1) hc
      · rw [List.cons_prefix_cons, List.cons_prefix_cons]
        refine and_congr_right fun hcd => ?_
        subst hcd
        exact ih h.tail rest

/-- What follows a piece that stays, and begins and ends in code. -/
theorem Kept.drop_squeeze {piece text : List Char} (h : Kept .code piece)
    (hcode : Zone.code.after piece = .code) (hp : piece <+: text) :
    (squeeze .code text).drop piece.length = squeeze .code (text.drop piece.length) := by
  obtain ⟨rest, rfl⟩ := hp
  rw [h.squeeze_append, hcode, List.drop_left, List.drop_left]

end Text

open MipsSource.Text

theorem IsLiteral.kept {mark : Char} {body : List Char} (h : IsLiteral (mark :: body ++ [mark]))
    (hm : mark ≠ ' ') : Kept .code (mark :: body ++ [mark]) := by
  intro a b hab
  refine h.inside a ⟨' ' :: b, hab.symm⟩ ?_ ?_
  · rintro rfl
    exact hm (List.cons.inj hab).1
  · rintro rfl
    exact List.cons_ne_nil _ _ (List.self_eq_append_right.1 hab)

namespace Lexeme

/-! ## Spaces and blanks -/

/-- Spaces outside literals end at the same place. -/
theorem dropWhile_squeeze {z : Zone} (hz : z.inLiteral = false) (text : List Char) :
    (squeeze z text).dropWhile (· = ' ') = squeeze z (text.dropWhile (· = ' ')) := by
  have hstep : z.step ' ' = z := Zone.step_of_quiet hz (by decide) (by decide)
  induction text with
  | nil => rfl
  | cons c rest ih =>
    by_cases hc : c = ' '
    · subst hc
      rw [squeeze, hstep]
      split
      · rw [ih]
        simp
      · simp [ih]
    · rw [squeeze_cons_of_ne hc]
      simp [hc, squeeze_cons_of_ne hc]

theorem drop_spaces_squeeze (text : List Char) :
    (squeeze .code text).drop (spaces (squeeze .code text)).length =
      squeeze .code (text.drop (spaces text).length) := by
  rw [spaces, spaces, drop_length_takeWhile, drop_length_takeWhile, dropWhile_squeeze rfl]

theorem spaces_eq_nil_iff (text : List Char) : spaces text = [] ↔ text.head? ≠ some ' ' := by
  cases text with
  | nil => simp [spaces]
  | cons c rest => by_cases hc : c = ' ' <;> simp [spaces, hc]

/-- **Blanks end at the same place.** -/
theorem drop_blankLength_squeeze (inComment : Bool) (text : List Char) :
    (squeeze (.ofBlank inComment) text).drop
        (blankLength inComment (squeeze (.ofBlank inComment) text)) =
      squeeze .code (text.drop (blankLength inComment text)) := by
  induction text generalizing inComment with
  | nil => rfl
  | cons c rest ih =>
    rw [squeeze, blankLength_cons]
    split
    · -- a space that another one follows
      rename_i hc
      have hs : blankStep? inComment c = some inComment := by
        rw [hc.1]
        cases inComment <;> rfl
      rw [Zone.step_ofBlank hs, hs, ih]
      rfl
    · rw [blankLength_cons]
      cases hs : blankStep? inComment c with
      | some next =>
        rw [Zone.step_ofBlank hs]
        exact ih next
      | none =>
        cases inComment with
        | true => exact absurd hs (blankStep?_comment c)
        | false =>
          rename_i hc
          show c :: squeeze (Zone.code.step c) rest = squeeze .code (c :: rest)
          rw [squeeze]
          exact (if_neg hc).symm

/-! ## Lexemes that are found as they are -/

section
variable {γ : Type}

/-- Squeezing a text does not change the lexeme at its start, of length `len`, and squeezes what
follows it. -/
structure Blind (lexeme? : List Char → Option γ) (len : γ → Nat) : Prop where
  same : ∀ text, lexeme? (squeeze .code text) = lexeme? text
  drop : ∀ text g, lexeme? text = some g →
    (squeeze .code text).drop (len g) = squeeze .code (text.drop (len g))

/-- **Lexemes that stop at a space** are found as they are. -/
theorem blind_of_append {lexeme? : List Char → Option γ} {len : γ → Nat}
    (hlen : ∀ text g, lexeme? text = some g → len g ≤ text.length ∧ Balanced text (len g))
    (happ : ∀ t, Breaks t → ∀ l, lexeme? (l ++ t) = lexeme? l) : Blind lexeme? len := by
  -- up to the first space nothing changes
  have hsplit : ∀ text : List Char, ∃ a t, text = a ++ t ∧ ' ' ∉ a ∧ Breaks t := by
    intro text
    refine ⟨text.takeWhile (· ≠ ' '), text.dropWhile (· ≠ ' '),
      List.takeWhile_append_dropWhile.symm, fun hmem => ?_, fun c hc => ?_⟩
    · have hall := List.all_eq_true.1 List.all_takeWhile ' ' hmem
      simp at hall
    · have hhead := List.head?_dropWhile_not (· ≠ ' ') text
      rw [Option.mem_def.1 hc] at hhead
      have hspace : c = ' ' := by simpa using hhead
      rw [hspace]
      decide
  have htail : ∀ z t, Breaks t → Breaks (squeeze z t) := by
    intro z t ht c hc
    rw [head?_squeeze] at hc
    exact ht c hc
  constructor
  · intro text
    obtain ⟨a, t, rfl, ha, ht⟩ := hsplit text
    rw [(kept_of_no_space ha _).squeeze_append, happ _ (htail _ t ht), happ t ht]
  · intro text g hg
    obtain ⟨a, t, rfl, ha, ht⟩ := hsplit text
    rw [happ t ht] at hg
    obtain ⟨hn, hbal⟩ := hlen a g hg
    have hrest : ' ' ∉ a.drop (len g) := fun hmem => ha (List.mem_of_mem_drop hmem)
    rw [(kept_of_no_space ha _).squeeze_append, List.drop_append_of_le_length hn,
      List.drop_append_of_le_length hn, (kept_of_no_space hrest _).squeeze_append, hbal.after]

/-- Literals are found as they are. -/
theorem blind_of_literal {lexeme? : List Char → Option (List Char)} {mark : Char}
    {IsBody : List Char → Prop} (hmark : mark ≠ ' ')
    (hiff : ∀ {text body}, lexeme? text = some body ↔
      IsBody body ∧ mark :: body ++ [mark] <+: text)
    (hliteral : ∀ {body}, IsBody body → IsLiteral (mark :: body ++ [mark])) :
    Blind lexeme? fun body => body.length + 2 := by
  constructor
  · intro text
    refine Option.ext fun body => ?_
    rw [hiff, hiff]
    exact and_congr_right fun hbody => ((hliteral hbody).kept hmark).prefix_squeeze_iff text
  · intro text body h
    obtain ⟨hbody, hp⟩ := hiff.1 h
    have hdrop := ((hliteral hbody).kept hmark).drop_squeeze (hliteral hbody).closed hp
    simpa using hdrop

end

theorem identifier?_blind : Blind identifier? List.length :=
  blind_of_append (fun _ _ h => ⟨(identifier?_spec h).2, (identifier?_ends h).1.balanced⟩)
    fun _ ht l => identifier?_append ht l

theorem directiveName?_blind : Blind directiveName? List.length :=
  blind_of_append (fun _ _ h => ⟨(directiveName?_spec h).2, (directiveName?_ends h).1.balanced⟩)
    fun _ ht l => directiveName?_append ht l

theorem registerName?_blind : Blind registerName? fun name => name.length + 1 :=
  blind_of_append (fun _ _ h => ⟨registerName?_spec h, balanced_holdsOfLexemes.registerName _ _ h⟩)
    fun _ ht l => registerName?_append ht l

theorem integer?_blind : Blind integer? List.length :=
  blind_of_append (fun _ _ h => ⟨(integer?_spec h).2, (integer?_ends h).1.balanced⟩)
    fun _ ht l => integer?_append ht l

theorem decimal?_blind : Blind decimal? Prod.snd :=
  blind_of_append (fun _ _ h => ⟨(decimal?_spec h).2, (decimal?_ends h).1.balanced⟩)
    fun _ ht l => decimal?_append ht l

theorem character?_blind : Blind character? fun body => body.length + 2 :=
  blind_of_literal (by decide) character?_eq_some_iff
    fun h => (Zone.isBody_character h).isLiteral (.inr rfl)

theorem string?_blind : Blind string? fun body => body.length + 2 :=
  blind_of_literal (by decide) string?_eq_some_iff
    fun h => (Zone.isBody_string h).isLiteral (.inl rfl)

/-- The run of word characters that a text starts with is found as it is. -/
theorem takeWhile_blind : Blind (fun text => some (text.takeWhile isWordChar)) List.length := by
  refine blind_of_append (fun text g h => ?_) fun t ht l => ?_
  · cases h
    have hspan : Spans isPlain text (text.takeWhile isWordChar).length :=
      spans_takeWhile (fun _ => isPlain_of_wordChar) text
    exact ⟨length_takeWhile_le _ text, hspan.balanced⟩
  · rw [takeWhile_append_breaks ht fun _ => isInk_of_wordChar]

/-! ## Lexemes with spaces inside -/

/-- A scanner finds the same value in a text and in what it is squeezed to, and leaves of the second
what it leaves of the first, squeezed. -/
def Aligned {α : Type} (scanner : List Char → Option (α × Nat)) : Prop :=
  ∀ text, (scanner text = none ∧ scanner (squeeze .code text) = none) ∨
    ∃ v n m, scanner text = some (v, n) ∧ scanner (squeeze .code text) = some (v, m) ∧
      (squeeze .code text).drop m = squeeze .code (text.drop n)

theorem Blind.aligned {α γ : Type} {lexeme? : List Char → Option γ} {f : γ → α × Nat}
    (h : Blind lexeme? fun g => (f g).2) : Aligned fun text => (lexeme? text).map f := by
  intro text
  simp only
  rw [h.same text]
  cases hg : lexeme? text with
  | none => exact .inl ⟨rfl, rfl⟩
  | some g => exact .inr ⟨(f g).1, (f g).2, (f g).2, rfl, rfl, h.drop text g hg⟩

/-- What is worked out from the value. -/
theorem Aligned.map {α β : Type} {scanner : List Char → Option (α × Nat)} (h : Aligned scanner)
    (f : α → β) : Aligned fun text => (scanner text).map fun found => (f found.1, found.2) := by
  intro text
  simp only
  rcases h text with ⟨hx, hy⟩ | ⟨v, n, m, hx, hy, hdrop⟩
  · exact .inl ⟨by rw [hx]; rfl, by rw [hy]; rfl⟩
  · exact .inr ⟨f v, n, m, by rw [hx]; rfl, by rw [hy]; rfl, hdrop⟩

theorem decimal?_aligned : Aligned decimal? := by
  have h := decimal?_blind.aligned (f := id)
  simpa using h

theorem label?_eq (text : List Char) :
    label? text =
      match identifier? text with
      | none => none
      | some name =>
        if ((text.drop name.length).drop (spaces (text.drop name.length)).length).head? =
            some ':' then
          some (name, name.length + (spaces (text.drop name.length)).length + 1)
        else none := by
  rw [label?]
  cases identifier? text with
  | none => rfl
  | some name =>
    simp only [List.drop_drop]
    cases text.drop (name.length + (spaces (text.drop name.length)).length) with
    | nil => rfl
    | cons c rest => by_cases hc : c = ':' <;> simp [hc]

/-- A label is found with the spaces before its colon squeezed. -/
theorem label?_aligned : Aligned label? := by
  intro text
  rw [label?_eq, label?_eq, identifier?_blind.same]
  cases hname : identifier? text with
  | none => exact .inl ⟨rfl, rfl⟩
  | some name =>
    have hdrop := identifier?_blind.drop text name hname
    have hgap := drop_spaces_squeeze (text.drop name.length)
    rw [← hdrop] at hgap
    simp only
    rw [hgap, head?_squeeze]
    split
    · rename_i hcolon
      refine .inr ⟨_, _, _, rfl, rfl, ?_⟩
      obtain ⟨rest, hrest⟩ := List.head?_eq_some_iff.1 hcolon
      rw [← List.drop_drop, ← List.drop_drop, hgap, ← List.drop_drop, ← List.drop_drop, hrest,
        squeeze_cons_of_ne (by decide)]
      rfl
    · exact .inl ⟨rfl, rfl⟩

/-- An offset is found with the spaces around its sign squeezed. -/
theorem symbolOffset?_aligned : Aligned symbolOffset? := by
  intro text
  have hbefore := drop_spaces_squeeze text
  simp only [symbolOffset?, hbefore]
  cases hrest : text.drop (spaces text).length with
  | nil => exact .inl ⟨rfl, rfl⟩
  | cons mark rest =>
    rw [hrest] at hbefore
    by_cases hmark : Numeral.isSign mark = true
    · have hcode : Zone.code.step mark = .code :=
        of_decide_eq_true (Zone.isQuiet_of_plain (isPlain_of_sign hmark))
      rw [squeeze_cons_of_ne (ne_of_test hmark (by decide)), hcode] at hbefore ⊢
      have hafter := drop_spaces_squeeze rest
      have hword := Option.some.inj (takeWhile_blind.same (rest.drop (spaces rest).length))
      have hdrop := takeWhile_blind.drop (rest.drop (spaces rest).length) _ rfl
      simp only [hafter, hword, hmark, Bool.true_and]
      split
      · refine .inr ⟨_, _, _, rfl, rfl, ?_⟩
        simp only [← List.drop_drop, hbefore, hrest, List.drop_one, List.tail_cons, hafter]
        exact hdrop
      · exact .inl ⟨rfl, rfl⟩
    · -- no sign, neither here nor after squeezing
      have hhead := head?_squeeze .code (mark :: rest)
      obtain ⟨rest', hrest'⟩ := List.head?_eq_some_iff.1 hhead
      simp [hrest', hmark]

end Lexeme

end MipsSource
