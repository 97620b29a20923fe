import MipsSource.Program.Parser
import MipsSource.Proofs.Lexemes
import MipsSource.Proofs.Moves

/-!
# Blanks

Spaces, line ends and comments are skipped in one go. `blankLength` counts them character by
character and only remembers whether a comment is open; `blankLength_cons` is one step of it. What
is skipped, and what is not, is said without it:

* `head_drop_blankLength`, `blankLength_eq_zero`: skipping ends where no blank follows.
* `IsGap`: blanks as a grammar, in which every comment runs up to the end of its line;
  `isGap_blankLength`: what is skipped is a gap; `IsGap.blankLength`: every gap is skipped.
* `blankLength_append_of_lt`, `blankLength_append_of_eq`: what more text behind changes.
* `IsBlankPiece`: pieces of blanks and comments that may break off anywhere;
  `blankLength_flatten`: any number of them is skipped.
* `Cursor.skipBlanks_maximal`: blanks are skipped up to the one place where they end.
-/

set_option autoImplicit false

namespace MipsSource

namespace Lexeme

/-! ## One character -/

/-- Whether a comment is open after a blank character; there is no answer if the character is no
blank. -/
def blankStep? (inComment : Bool) (c : Char) : Option Bool :=
  if c = '\n' then some false
  else if inComment then some true
  else if c = ' ' ∨ c = '\r' then some false
  else if c = commentChar then some true
  else none

theorem blankLength_cons (inComment : Bool) (c : Char) (rest : List Char) :
    blankLength inComment (c :: rest) =
      match blankStep? inComment c with
      | some next => blankLength next rest + 1
      | none => 0 := by
  rw [blankLength, blankStep?]
  repeat' split
  all_goals simp_all

/-- In a comment every character is skipped. -/
theorem blankStep?_comment (c : Char) : blankStep? true c ≠ none := by
  rw [blankStep?]
  split <;> simp

/-- Spaces and line ends are skipped. -/
theorem blankStep?_blank {c : Char} (h : c = ' ' ∨ c = '\r' ∨ c = '\n') (inComment : Bool) :
    ∃ next, blankStep? inComment c = some next := by
  rcases h with rfl | rfl | rfl <;> cases inComment <;> exact ⟨_, rfl⟩

/-- The characters that start no blank. -/
theorem blankStep?_eq_none_iff (c : Char) :
    blankStep? false c = none ↔ c ∉ [' ', '\r', '\n', '#'] := by
  grind [blankStep?, commentChar]

theorem blankLength_blank {c : Char} (h : c = ' ' ∨ c = '\r' ∨ c = '\n') (rest : List Char) :
    blankLength false (c :: rest) = blankLength false rest + 1 := by
  rcases h with rfl | rfl | rfl <;> rfl

/-- A newline is skipped, and it ends a comment. -/
theorem blankLength_newline (inComment : Bool) (rest : List Char) :
    blankLength inComment ('\n' :: rest) = blankLength false rest + 1 := by
  rw [blankLength, if_pos rfl]

/-- A comment begins after blanks, whether or not one is open already. -/
theorem blankLength_commentChar (inComment : Bool) (rest : List Char) :
    blankLength inComment (commentChar :: rest) = blankLength true rest + 1 := by
  cases inComment <;> rfl

theorem blankLength_inComment {c : Char} (h : c ≠ '\n') (rest : List Char) :
    blankLength true (c :: rest) = blankLength true rest + 1 := by
  rw [blankLength, if_neg h, if_pos rfl]

theorem blankLength_le (inComment : Bool) (text : List Char) :
    blankLength inComment text ≤ text.length := by
  induction text generalizing inComment with
  | nil => exact Nat.zero_le _
  | cons c rest ih =>
    rw [blankLength_cons, List.length_cons]
    split
    · exact Nat.succ_le_succ (ih _)
    · exact Nat.zero_le _

/-! ## Where blanks end -/

/-- No blank stands after the blanks. -/
theorem head_drop_blankLength {inComment : Bool} {text : List Char} {c : Char}
    (h : (text.drop (blankLength inComment text)).head? = some c) :
    c ∉ [' ', '\r', '\n', '#'] := by
  induction text generalizing inComment with
  | nil => cases h
  | cons x rest ih =>
    rw [blankLength_cons] at h
    cases hs : blankStep? inComment x with
    | some next =>
      rw [hs] at h
      exact ih h
    | none =>
      rw [hs] at h
      cases h
      cases inComment with
      | true => exact absurd hs (blankStep?_comment c)
      | false => exact (blankStep?_eq_none_iff c).1 hs

/-- Where no blank stands nothing is skipped. -/
theorem blankLength_eq_zero {text : List Char}
    (h : ∀ c ∈ text.head?, c ∉ [' ', '\r', '\n', '#']) : blankLength false text = 0 := by
  cases text with
  | nil => rfl
  | cons c rest => rw [blankLength_cons, (blankStep?_eq_none_iff c).2 (h c rfl)]

/-! ## More text behind -/

/-- Blanks that end before the end of a text end there whatever follows it. -/
theorem blankLength_append_of_lt {inComment : Bool} {l : List Char}
    (h : blankLength inComment l < l.length) (u : List Char) :
    blankLength inComment (l ++ u) = blankLength inComment l := by
  induction l generalizing inComment with
  | nil => simp at h
  | cons c l ih =>
    rw [blankLength_cons] at h
    rw [List.cons_append, blankLength_cons, blankLength_cons]
    cases hs : blankStep? inComment c with
    | none => rfl
    | some next =>
      rw [hs] at h
      exact congrArg (· + 1) (ih (Nat.lt_of_succ_lt_succ h))

/-- Blanks that fill a text go on in what follows, perhaps inside a comment. -/
theorem blankLength_append_of_eq {inComment : Bool} {l : List Char}
    (h : blankLength inComment l = l.length) :
    ∃ last : Bool, ∀ u, blankLength inComment (l ++ u) = l.length + blankLength last u := by
  induction l generalizing inComment with
  | nil => exact ⟨inComment, fun u => by simp⟩
  | cons c l ih =>
    rw [blankLength_cons] at h
    cases hs : blankStep? inComment c with
    | none => rw [hs] at h; cases h
    | some next =>
      rw [hs] at h
      obtain ⟨last, hlast⟩ := ih (Nat.succ.inj h)
      refine ⟨last, fun u => ?_⟩
      rw [List.cons_append, blankLength_cons, hs, List.length_cons]
      simp only [hlast]
      omega

/-- Blanks that end before a cut are the same without what follows the cut. -/
theorem blankLength_append {inComment : Bool} {l u : List Char}
    (h : blankLength inComment (l ++ u) ≤ l.length) :
    blankLength inComment (l ++ u) = blankLength inComment l := by
  rcases Nat.lt_or_eq_of_le (blankLength_le inComment l) with hlt | heq
  · exact blankLength_append_of_lt hlt u
  · obtain ⟨last, hlast⟩ := blankLength_append_of_eq heq
    have hmore := hlast u
    omega

/-- Blanks before a newline either stop before it, whatever follows, or go on after it. -/
theorem blankLength_append_newline (inComment : Bool) (l u : List Char) :
    (blankLength inComment (l ++ ['\n']) ≤ l.length ∧
        blankLength inComment (l ++ '\n' :: u) = blankLength inComment (l ++ ['\n'])) ∨
      (blankLength inComment (l ++ ['\n']) = l.length + 1 ∧
        blankLength inComment (l ++ '\n' :: u) = l.length + 1 + blankLength false u) := by
  rcases Nat.lt_or_eq_of_le (blankLength_le inComment l) with hlt | heq
  · rw [blankLength_append_of_lt hlt, blankLength_append_of_lt hlt]
    exact .inl ⟨Nat.le_of_lt hlt, rfl⟩
  · obtain ⟨last, hlast⟩ := blankLength_append_of_eq heq
    rw [hlast, hlast, blankLength_newline, blankLength_newline]
    exact .inr ⟨rfl, by omega⟩

/-- A comment is skipped up to the end of its line. -/
theorem blankLength_comment {comment u : List Char} (h : '\n' ∉ comment) (hu : AtLineEnd u) :
    blankLength true (comment ++ u) = comment.length + blankLength false u := by
  induction comment with
  | nil =>
    rw [List.nil_append, List.length_nil, Nat.zero_add]
    cases u with
    | nil => rfl
    | cons c u =>
      obtain rfl : c = '\n' := hu c rfl
      rfl
  | cons c comment ih =>
    simp only [List.mem_cons, not_or] at h
    rw [List.cons_append, blankLength_inComment (Ne.symm h.1), ih h.2, List.length_cons]
    omega

/-! ## Gaps -/

/-- Blanks before `after`: spaces, line ends, and comments up to a newline or the end of the
text. -/
inductive IsGap (after : List Char) : List Char → Prop
  | nil : IsGap after []
  | blank {c : Char} {rest : List Char} :
      c = ' ' ∨ c = '\r' ∨ c = '\n' → IsGap after rest → IsGap after (c :: rest)
  | comment {body rest : List Char} :
      '\n' ∉ body → AtLineEnd (rest ++ after) → IsGap after rest →
      IsGap after ('#' :: body ++ rest)

/-- What is skipped is a gap; after the start of a comment, it is the rest of the comment and a
gap. -/
theorem isGap_of_blankLength (text : List Char) :
    IsGap (text.drop (blankLength false text)) (text.take (blankLength false text)) ∧
      ∃ body rest, text.take (blankLength true text) = body ++ rest ∧ '\n' ∉ body ∧
        AtLineEnd (rest ++ text.drop (blankLength true text)) ∧
        IsGap (text.drop (blankLength true text)) rest := by
  induction text with
  | nil => exact ⟨.nil, [], [], rfl, by simp, atLineEnd_nil, .nil⟩
  | cons c text ih =>
    obtain ⟨hgap, body, rest, htake, hbody, hend, hrest⟩ := ih
    by_cases hn : c = '\n'
    · -- a newline is a blank, and it ends a comment
      subst hn
      rw [blankLength_newline, blankLength_newline, List.take_succ_cons, List.drop_succ_cons]
      have hblank := hgap.blank (.inr (.inr rfl))
      exact ⟨hblank, [], _, rfl, by simp, atLineEnd_newline _, hblank⟩
    · constructor
      · by_cases hs : c = ' ' ∨ c = '\r' ∨ c = '\n'
        · rw [blankLength_blank hs, List.take_succ_cons, List.drop_succ_cons]
          exact hgap.blank hs
        · by_cases hc : c = commentChar
          · subst hc
            rw [blankLength_commentChar, List.take_succ_cons, List.drop_succ_cons, htake]
            exact .comment hbody hend hrest
          · have hzero : blankLength false (c :: text) = 0 := blankLength_eq_zero fun d hd => by
              cases hd
              simp_all [commentChar]
            rw [hzero]
            exact .nil
      · rw [blankLength_inComment hn, List.take_succ_cons, List.drop_succ_cons, htake]
        refine ⟨c :: body, rest, rfl, ?_, hend, hrest⟩
        simp [hbody, Ne.symm hn]

theorem isGap_blankLength (text : List Char) :
    IsGap (text.drop (blankLength false text)) (text.take (blankLength false text)) :=
  (isGap_of_blankLength text).1

/-- A gap is skipped, and so are the blanks behind it. -/
theorem IsGap.blankLength {after gap : List Char} (h : IsGap after gap) :
    Lexeme.blankLength false (gap ++ after) = gap.length + Lexeme.blankLength false after := by
  induction h with
  | nil => rw [List.nil_append, List.length_nil, Nat.zero_add]
  | @blank c rest hc _ ih =>
    rw [List.cons_append, blankLength_blank hc, ih, List.length_cons]
    omega
  | @comment body rest hbody hend _ ih =>
    calc Lexeme.blankLength false ('#' :: body ++ rest ++ after)
        = Lexeme.blankLength false (commentChar :: (body ++ (rest ++ after))) := by
          rw [List.append_assoc]
          rfl
      _ = body.length + Lexeme.blankLength false (rest ++ after) + 1 := by
          rw [blankLength_commentChar, blankLength_comment hbody hend]
      _ = ('#' :: body ++ rest).length + Lexeme.blankLength false after := by
          rw [ih, List.length_append, List.length_cons]
          omega

/-! ## Pieces -/

/-- A piece of blank text: spaces and line ends, or a comment, which may break off before its line
ends. -/
def IsBlankPiece (piece : List Char) : Prop :=
  (∀ c ∈ piece, c = ' ' ∨ c = '\r' ∨ c = '\n') ∨ ∃ body, piece = '#' :: body ∧ '\n' ∉ body

theorem blankLength_of_forall {run : List Char} (h : ∀ c ∈ run, c = ' ' ∨ c = '\r' ∨ c = '\n')
    (inComment : Bool) : blankLength inComment run = run.length := by
  induction run generalizing inComment with
  | nil => rfl
  | cons c run ih =>
    obtain ⟨next, hnext⟩ := blankStep?_blank (h c List.mem_cons_self) inComment
    rw [blankLength_cons, hnext, List.length_cons]
    exact congrArg (· + 1) (ih (fun d hd => h d (List.mem_cons_of_mem c hd)) next)

theorem IsBlankPiece.blankLength {piece : List Char} (h : IsBlankPiece piece) (inComment : Bool) :
    Lexeme.blankLength inComment piece = piece.length := by
  rcases h with hblank | ⟨body, rfl, hbody⟩
  · exact blankLength_of_forall hblank inComment
  · have hskip := blankLength_comment hbody atLineEnd_nil
    rw [List.append_nil] at hskip
    exact (blankLength_commentChar inComment body).trans (congrArg (· + 1) hskip)

/-- Pieces of blank text are skipped, also where one that follows is read as part of a comment. -/
theorem blankLength_flatten {pieces : List (List Char)}
    (h : ∀ piece ∈ pieces, IsBlankPiece piece) (inComment : Bool) :
    blankLength inComment pieces.flatten = pieces.flatten.length := by
  induction pieces generalizing inComment with
  | nil => rfl
  | cons piece pieces ih =>
    have hpiece := (h piece List.mem_cons_self).blankLength inComment
    obtain ⟨last, hlast⟩ := blankLength_append_of_eq hpiece
    rw [List.flatten_cons, hlast, List.length_append,
      ih (fun p hp => h p (List.mem_cons_of_mem piece hp)) last]

/-- Pieces of blank text that a text starts with reach no further than its blanks. -/
theorem length_flatten_le {pieces : List (List Char)} {text : List Char}
    (h : ∀ piece ∈ pieces, IsBlankPiece piece) (hp : pieces.flatten <+: text) :
    pieces.flatten.length ≤ blankLength false text := by
  obtain ⟨rest, rfl⟩ := hp
  obtain ⟨last, hlast⟩ := blankLength_append_of_eq (blankLength_flatten h false)
  rw [hlast]
  exact Nat.le_add_right _ _

end Lexeme

/-! ## Skipping -/

/-- From the offset `k` up to `e` there are only blanks and whole comments, and neither stands at
`e`. -/
structure Text.BlankUpTo (text : List Char) (k e : Nat) : Prop where
  le : k ≤ e
  within : e ≤ text.length
  gap : Lexeme.IsGap (text.drop e) ((text.drop k).take (e - k))
  stops : ∀ c ∈ (text.drop e).head?, c ∉ [' ', '\r', '\n', '#']

/-- Blanks end at one place. -/
theorem Text.blankUpTo_iff {text : List Char} {k : Nat} (hk : k ≤ text.length) (e : Nat) :
    BlankUpTo text k e ↔ e = k + Lexeme.blankLength false (text.drop k) := by
  constructor
  · intro h
    have hgap := h.gap.blankLength
    have hsplit : (text.drop k).take (e - k) ++ text.drop e = text.drop k := by
      rw [← Nat.add_sub_cancel' h.le, ← List.drop_drop, Nat.add_sub_cancel' h.le,
        List.take_append_drop]
    have hle := h.le
    have hwithin := h.within
    rw [hsplit, Lexeme.blankLength_eq_zero h.stops, List.length_take, List.length_drop] at hgap
    omega
  · rintro rfl
    have hle := Lexeme.blankLength_le false (text.drop k)
    have hgap := Lexeme.isGap_blankLength (text.drop k)
    rw [List.length_drop] at hle
    rw [List.drop_drop] at hgap
    refine ⟨Nat.le_add_right _ _, by omega, ?_, fun c hc => ?_⟩
    · rw [Nat.add_sub_cancel_left]
      exact hgap
    · rw [← List.drop_drop] at hc
      exact Lexeme.head_drop_blankLength hc

namespace Cursor

theorem skipBlanks_rest (c : Cursor) :
    c.skipBlanks.rest = c.rest.drop (Lexeme.blankLength false c.rest) := by
  rw [skipBlanks, advance_rest]

theorem skipBlanks_past {c : Cursor} (h : c.past = 0) : c.skipBlanks.past = 0 :=
  advance_past h _

theorem skipBlanks_of_head {c : Cursor} (h : ∀ x ∈ c.rest.head?, x ∉ [' ', '\r', '\n', '#']) :
    c.skipBlanks = c := by
  rw [skipBlanks, Lexeme.blankLength_eq_zero h, advance_zero]

/-- Behind blanks there is nothing more to skip. -/
theorem skipBlanks_skipBlanks (c : Cursor) : c.skipBlanks.skipBlanks = c.skipBlanks := by
  refine skipBlanks_of_head fun x hx => ?_
  rw [skipBlanks_rest] at hx
  exact Lexeme.head_drop_blankLength hx

/-- Skipping blanks is a jump over them. -/
theorem skipBlanks_eq_jump (text : List Char) (offset : Nat) (line col : Int) :
    (ofText text offset line col).skipBlanks =
      jump text offset line col (Lexeme.blankLength false (text.drop offset)) :=
  moveBy_eq_jump text offset line col (Lexeme.blankLength false (text.drop offset))

/-- **Blanks are skipped up to the one place where they end**, from every place in a text. Between
that place and the start there are only blanks and whole comments, neither stands there, and no
other place is like that. No sequence of blanks and comments, whole or broken off, reaches further.
Line and column are those of the jump, and skipping again skips nothing. -/
theorem skipBlanks_maximal {text : List Char} {offset : Nat} (h : offset ≤ text.length)
    (line col : Int) :
    ∃ stop : Nat, (∀ e, Text.BlankUpTo text offset e ↔ e = stop) ∧
      (∀ pieces : List (List Char), (∀ piece ∈ pieces, Lexeme.IsBlankPiece piece) →
        pieces.flatten <+: text.drop offset → offset + pieces.flatten.length ≤ stop) ∧
      (ofText text offset line col).skipBlanks.offset = stop ∧
      (ofText text offset line col).skipBlanks = jump text offset line col (stop - offset) ∧
      (ofText text offset line col).skipBlanks.skipBlanks =
        (ofText text offset line col).skipBlanks := by
  have hle := Lexeme.blankLength_le false (text.drop offset)
  have hcount : ((offset + Lexeme.blankLength false (text.drop offset) : Nat) : Int) - offset =
      Lexeme.blankLength false (text.drop offset) := by omega
  refine ⟨offset + Lexeme.blankLength false (text.drop offset), Text.blankUpTo_iff h, ?_, ?_, ?_,
    skipBlanks_skipBlanks _⟩
  · intro pieces hpieces hahead
    exact Nat.add_le_add_left (Lexeme.length_flatten_le hpieces hahead) offset
  · exact advance_offset (Nat.sub_eq_zero_of_le h) hle
  · rw [skipBlanks_eq_jump, hcount]

/-- Comments with a quotation mark, a number sign and code in them, carriage returns and an empty
line, up to a semicolon. -/
theorem skipBlanks_maximal_comments :
    Text.BlankUpTo "li  # a \"#\r\n\r#li\n\n ;#".toList 2 19 ∧
      (∀ e, Text.BlankUpTo "li  # a \"#\r\n\r#li\n\n ;#".toList 2 e → e = 19) ∧
      (ofText "li  # a \"#\r\n\r#li\n\n ;#".toList 2 1 3).skipBlanks =
        ofText "li  # a \"#\r\n\r#li\n\n ;#".toList 19 4 2 := by
  have hwithin : 2 ≤ "li  # a \"#\r\n\r#li\n\n ;#".toList.length := by decide
  obtain ⟨stop, hiff, -, hoffset, -, -⟩ := skipBlanks_maximal hwithin 1 3
  obtain rfl : stop = 19 := hoffset.symm.trans (by decide)
  exact ⟨(hiff 19).2 rfl, fun e => (hiff e).1, by decide⟩

end Cursor

end MipsSource
