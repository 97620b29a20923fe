import MipsSource.Proofs.Blanks
import MipsSource.Proofs.Composed
import MipsSource.Proofs.LexemeEnds

/-!
# Code, comments and literals

Whether a character is code, part of a comment or part of a quoted literal is told by the text
before it. `Zone` is what a place lies in, and `Zone.after` follows it along a text. Items begin and
end in code, whatever they hold, so a run of the reader is in code wherever it looks for the next
piece:

* `IsLiteral`: a quoted literal begins and ends in code, and all between its marks is inside it.
* `holdsOfLexemes_of_pieces`: a lexeme is made of plain characters, marks and literals.
* `Parser.item_balanced`: an item begins and ends in code.
* `Zone.after_blanks`: so do blanks, unless the text ends with a comment.
-/

set_option autoImplicit false

namespace MipsSource

/-- What a place of a text lies in. -/
inductive Zone where
  | code
  | comment
  /-- Between two marks `mark`. -/
  | literal (mark : Char)
  /-- After a backslash between two marks `mark`. -/
  | escape (mark : Char)
deriving DecidableEq, Repr

namespace Zone

open MipsSource.Lexeme

/-- The zone after one more character. A newline ends comments, and literals that are not closed. -/
def step : Zone → Char → Zone
  | .code, c =>
    if c = commentChar then .comment
    else if c = '"' ∨ c = '\'' then .literal c
    else .code
  | .comment, c => if c = '\n' then .code else .comment
  | .literal mark, c =>
    if c = mark ∨ c = '\n' then .code
    else if c = '\\' then .escape mark
    else .literal mark
  | .escape mark, c => if c = '\n' then .code else .literal mark

/-- The zone after a text. -/
def after (z : Zone) (text : List Char) : Zone :=
  text.foldl step z

/-- Is the place inside a quoted literal? -/
def inLiteral : Zone → Bool
  | .literal _ | .escape _ => true
  | .code | .comment => false

@[simp]
theorem after_nil (z : Zone) : z.after [] = z := rfl

@[simp]
theorem after_cons (z : Zone) (c : Char) (text : List Char) :
    z.after (c :: text) = (z.step c).after text := rfl

theorem after_append (z : Zone) (a b : List Char) : z.after (a ++ b) = (z.after a).after b :=
  List.foldl_append

/-! ## Words -/

/-- Does code go on after the character? -/
def isQuiet (c : Char) : Bool :=
  code.step c = code

theorem isQuiet_iff {c : Char} :
    isQuiet c = true ↔ c ≠ commentChar ∧ c ≠ '"' ∧ c ≠ '\'' := by
  rw [isQuiet, decide_eq_true_eq, step]
  by_cases hc : c = commentChar
  · simp [hc]
  · by_cases hq : c = '"' ∨ c = '\''
    · simp only [hc, hq, if_true, if_false, reduceCtorEq, false_iff]
      rintro ⟨-, h1, h2⟩
      exact hq.elim h1 h2
    · simp only [hc, hq, if_false, true_iff]
      exact ⟨hc, not_or.1 hq⟩

theorem isQuiet_of_plain {c : Char} (h : isPlain c = true) : isQuiet c = true :=
  isQuiet_iff.2 ⟨ne_of_test h (by decide), ne_of_test h (by decide), ne_of_test h (by decide)⟩

/-- Outside literals such a character keeps the zone, if it is no newline. -/
theorem step_of_quiet {z : Zone} {c : Char} (hz : z.inLiteral = false) (hc : isQuiet c = true)
    (hn : c ≠ '\n') : z.step c = z := by
  cases z with
  | code => exact of_decide_eq_true hc
  | comment => simp [step, hn]
  | literal mark => cases hz
  | escape mark => cases hz

theorem after_of_quiet {text : List Char} (h : ∀ c ∈ text, isQuiet c = true) :
    code.after text = code := by
  induction text with
  | nil => rfl
  | cons c text ih =>
    have hstep : code.step c = code := of_decide_eq_true (h c List.mem_cons_self)
    rw [after_cons, hstep]
    exact ih fun x hx => h x (List.mem_cons_of_mem c hx)

/-! ## Literals -/

/-- The body of a literal between two marks `mark`: no place in it lies outside the literal, and at
its end no escape is open. -/
structure IsBody (mark : Char) (body : List Char) : Prop where
  after : (literal mark).after body = .literal mark
  inside : ∀ a, a <+: body → ((literal mark).after a).inLiteral = true

theorem isBody_nil (mark : Char) : IsBody mark [] where
  after := rfl
  inside a h := by
    obtain rfl := List.prefix_nil.1 h
    rfl

theorem IsBody.escape {mark letter : Char} {body : List Char} (hm : mark ≠ '\\')
    (hl : letter ≠ '\n') (h : IsBody mark body) : IsBody mark ('\\' :: letter :: body) := by
  have hopen : (literal mark).step '\\' = .escape mark := by simp [step, hm.symm]
  have hclose : (Zone.escape mark).step letter = .literal mark := by simp [step, hl]
  constructor
  · rw [after_cons, hopen, after_cons, hclose, h.after]
  · intro a ha
    match a with
    | [] => rfl
    | [c] =>
      obtain ⟨rfl, -⟩ := List.cons_prefix_cons.1 ha
      rw [after_cons, hopen]
      rfl
    | c :: d :: a =>
      obtain ⟨rfl, hd⟩ := List.cons_prefix_cons.1 ha
      obtain ⟨rfl, hbody⟩ := List.cons_prefix_cons.1 hd
      rw [after_cons, hopen, after_cons, hclose]
      exact h.inside a hbody

theorem IsBody.plain {mark c : Char} {body : List Char} (hm : c ≠ mark) (hb : c ≠ '\\')
    (hn : c ≠ '\n') (h : IsBody mark body) : IsBody mark (c :: body) := by
  have hstay : (literal mark).step c = .literal mark := by simp [step, hm, hb, hn]
  constructor
  · rw [after_cons, hstay, h.after]
  · intro a ha
    cases a with
    | nil => rfl
    | cons d a =>
      obtain ⟨rfl, hbody⟩ := List.cons_prefix_cons.1 ha
      rw [after_cons, hstay]
      exact h.inside a hbody

theorem isBody_string {body : List Char} (h : IsStringBody body) : IsBody '"' body := by
  induction h with
  | nil => exact isBody_nil '"'
  | escape hl _ ih => exact ih.escape (by decide) hl
  | plain hq hb hn _ ih => exact ih.plain hq hb hn

theorem isBody_character {body : List Char} (h : IsCharacterBody body) : IsBody '\'' body := by
  rcases h with ⟨letter, hl, rfl⟩ | ⟨c, hb, hq, hn, rfl⟩
  · exact (isBody_nil '\'').escape (by decide) hl
  · exact (isBody_nil '\'').plain hq hb hn

end Zone

/-- A quoted literal with its marks: it begins and ends in code, and every place between is inside
it. -/
structure IsLiteral (piece : List Char) : Prop where
  closed : Zone.code.after piece = .code
  inside : ∀ a, a <+: piece → a ≠ [] → a ≠ piece → (Zone.code.after a).inLiteral = true

theorem Zone.IsBody.isLiteral {mark : Char} {body : List Char} (hm : mark = '"' ∨ mark = '\'')
    (h : IsBody mark body) : IsLiteral (mark :: body ++ [mark]) := by
  have hopen : code.step mark = .literal mark := by rcases hm with rfl | rfl <;> decide
  have hclose : (literal mark).step mark = .code := by simp [step]
  constructor
  · rw [List.cons_append, after_cons, hopen, after_append, h.after, after_cons, hclose, after_nil]
  · intro a ha hne hall
    cases a with
    | nil => exact absurd rfl hne
    | cons c a =>
      obtain ⟨rfl, hbody⟩ := List.cons_prefix_cons.1 ha
      rw [after_cons, hopen]
      -- a prefix of the body, or all of the literal
      rcases List.prefix_concat_iff.1 hbody with rfl | hbody
      · exact absurd rfl hall
      · exact h.inside a hbody

theorem Lexeme.string?_isLiteral {text body : List Char} (h : string? text = some body) :
    IsLiteral ('"' :: body ++ ['"']) :=
  (Zone.isBody_string (string?_eq_some_iff.1 h).1).isLiteral (.inl rfl)

theorem Lexeme.character?_isLiteral {text body : List Char} (h : character? text = some body) :
    IsLiteral ('\'' :: body ++ ['\'']) :=
  (Zone.isBody_character (character?_eq_some_iff.1 h).1).isLiteral (.inr rfl)

/-! ## Items -/

/-- The first `n` characters of a text begin and end in code. -/
def Balanced (text : List Char) (n : Nat) : Prop :=
  Zone.code.after (text.take n) = .code

open MipsSource.Lexeme

/-- What comes after a piece that begins and ends in code. -/
theorem Balanced.after {text : List Char} {n : Nat} (h : Balanced text n) :
    Zone.code.after (text.drop n) = Zone.code.after text := by
  conv => rhs; rw [← List.take_append_drop n text, Zone.after_append, h]

theorem balanced_additive : Parser.Additive Balanced where
  zero _ := rfl
  add text a b ha hb := by
    rw [Balanced, List.take_add, Zone.after_append, ha]
    exact hb

theorem Lexeme.Spans.balanced {text : List Char} {n : Nat} (h : Spans isPlain text n) :
    Balanced text n :=
  Zone.after_of_quiet fun c hc => Zone.isQuiet_of_plain (h c hc)

section
variable {S : List Char → Nat → Prop} (h : Parser.Additive S)
  (hplain : ∀ text n, Spans isPlain text n → S text n)
  (hmark : ∀ mark ∈ [';', ',', ':', '(', ')', '$'], ∀ rest, S (mark :: rest) 1)
include h hplain hmark

theorem label?_pieces {text name : List Char} {n : Nat} (hl : label? text = some (name, n)) :
    S text n := by
  unfold label? at hl
  split at hl
  · cases hl
  · rename_i w hw
    simp only at hl
    split at hl
    · rename_i rest hr
      cases hl
      have hword := hplain _ _ (identifier?_ends hw).1
      have hgap := hplain _ _ (spans_spaces (text.drop name.length))
      refine h.add _ _ _ (h.add _ _ _ hword hgap) ?_
      rw [hr]
      exact hmark ':' (by simp) rest
    · cases hl

theorem registerName?_pieces {text name : List Char} (hr : registerName? text = some name) :
    S text (name.length + 1) := by
  rw [registerName?.eq_def] at hr
  split at hr
  · rename_i rest
    simp only at hr
    split at hr
    · cases hr
    · cases hr
      have hspan := (spans_sign (fun _ => isPlain_of_sign) rest).add
        (spans_takeWhile (q := isNameChar) (fun _ => isPlain_of_nameChar) _)
      rw [← List.length_append] at hspan
      rw [Nat.add_comm]
      exact h.add ('$' :: rest) 1 _ (hmark '$' (by simp) rest) (hplain _ _ hspan)
  · cases hr

/-- **A lexeme is made of plain characters, marks and literals**: what holds of these, and of pieces
that follow each other, holds of every lexeme. -/
theorem holdsOfLexemes_of_pieces
    (hcharacter : ∀ text w, character? text = some w → S text (w.length + 2))
    (hstring : ∀ text w, string? text = some w → S text (w.length + 2)) :
    Parser.HoldsOfLexemes S where
  identifier _ _ hs := hplain _ _ (identifier?_ends hs).1
  integer _ _ hs := hplain _ _ (integer?_ends hs).1
  symbolOffset _ _ _ hs := hplain _ _ (symbolOffset?_ends hs).1
  tag word hw text hp := by
    obtain ⟨rest, rfl⟩ := hp
    simp only [List.mem_cons, List.not_mem_nil, or_false] at hw
    rcases hw with rfl | rfl | rfl | rfl | rfl
    · exact hmark ';' (by simp) rest
    · exact hmark ',' (by simp) rest
    · exact hmark ':' (by simp) rest
    · exact hmark '(' (by simp) rest
    · exact hmark ')' (by simp) rest
  spaces text := hplain _ _ (spans_spaces text)
  directiveName _ _ hs := hplain _ _ (directiveName?_ends hs).1
  label _ _ _ hs := label?_pieces h hplain hmark hs
  registerName _ _ hs := registerName?_pieces h hplain hmark hs
  decimal _ _ _ hs := hplain _ _ (decimal?_ends hs).1
  character := hcharacter
  string := hstring

end

/-- A literal that a text starts with. -/
theorem IsLiteral.balanced {mark : Char} {body text : List Char}
    (h : IsLiteral (mark :: body ++ [mark])) (hp : mark :: body ++ [mark] <+: text) :
    Balanced text (body.length + 2) := by
  have hlen : (mark :: body ++ [mark]).length = body.length + 2 := by simp
  rw [← hlen, Balanced, ← List.prefix_iff_eq_take.1 hp]
  exact h.closed

theorem balanced_holdsOfLexemes : Parser.HoldsOfLexemes Balanced :=
  holdsOfLexemes_of_pieces balanced_additive (fun _ _ h => h.balanced)
    (by
      intro mark hm rest
      simp only [List.mem_cons, List.not_mem_nil, or_false] at hm
      rcases hm with rfl | rfl | rfl | rfl | rfl | rfl <;> rfl)
    (fun _ _ h => (character?_isLiteral h).balanced (character?_eq_some_iff.1 h).2)
    fun _ _ h => (string?_isLiteral h).balanced (string?_eq_some_iff.1 h).2

/-- **An item begins and ends in code.** -/
theorem Parser.item_balanced : item.Ensures fun c _ n => Balanced c.rest n :=
  (item_composed balanced_holdsOfLexemes).ensures balanced_additive

/-! ## Blanks -/

namespace Zone

/-- The zone of blanks: inside a comment, or between comments. -/
def ofBlank : Bool → Zone
  | false => .code
  | true => .comment

theorem step_ofBlank {inComment next : Bool} {c : Char} (h : blankStep? inComment c = some next) :
    (ofBlank inComment).step c = ofBlank next := by
  rw [blankStep?] at h
  split at h
  · rename_i hn
    cases h
    subst hn
    cases inComment <;> rfl
  · rename_i hn
    cases inComment with
    | true =>
      cases h
      simp [ofBlank, step, hn]
    | false =>
      rw [if_neg Bool.false_ne_true] at h
      split at h
      · rename_i hs
        cases h
        rcases hs with rfl | rfl <;> rfl
      · split at h
        · rename_i hc
          cases h
          simp [ofBlank, step, hc]
        · cases h

/-- **After blanks** there is code, or the text ends. -/
theorem after_blanks (inComment : Bool) (text : List Char) :
    ∃ last : Bool, (ofBlank inComment).after (text.take (blankLength inComment text)) =
      ofBlank last ∧ (last = true → blankLength inComment text = text.length) := by
  induction text generalizing inComment with
  | nil => exact ⟨inComment, rfl, fun _ => rfl⟩
  | cons c text ih =>
    rw [blankLength_cons]
    cases hs : blankStep? inComment c with
    | none =>
      refine ⟨inComment, rfl, fun ho => ?_⟩
      subst ho
      exact absurd hs (blankStep?_comment c)
    | some next =>
      obtain ⟨last, hafter, hend⟩ := ih next
      refine ⟨last, ?_, fun ho => congrArg (· + 1) (hend ho)⟩
      rw [List.take_succ_cons, after_cons, step_ofBlank hs, hafter]

end Zone

end MipsSource
