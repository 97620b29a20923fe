import MipsSource.Proofs.Concatenation
import MipsSource.Proofs.SourceMap
import MipsSource.Proofs.Zones

/-!
# Comments at the end of a line

A comment may be added at the end of any line without a change to what is read. Up to the comment
the reader does what it does if the text ends there, because no literal is open (`Closed`) and
everything else stops at a comment; and then the comment is skipped with the blanks before it.

* `shields_codeEnd`: where no literal is open, no lexeme reaches into a comment.
* `closed_of_read`: no literal is open at the end of a text that is a program.
* `read_before`: a text that is a program is read in the same way before a comment, but for blanks
  at its end.
* `ofText_comment`: so a comment before a newline changes nothing.
-/

set_option autoImplicit false

namespace MipsSource

open MipsSource.Lexeme

/-! ## Closed texts -/

/-- No quoted literal is open at the end of the text. -/
def Closed (text : List Char) : Prop :=
  (Zone.code.after text).inLiteral = false

theorem Balanced.closed_iff {text : List Char} {n : Nat} (h : Balanced text n) :
    Closed (text.drop n) ↔ Closed text := by
  rw [Closed, Closed, h.after]

/-- A literal that starts in a closed text ends in it. -/
theorem IsLiteral.prefix_append_iff {mark : Char} {body l u : List Char}
    (h : IsLiteral (mark :: body ++ [mark])) (hl : Closed l) (hu : AtCodeEnd u) :
    mark :: body ++ [mark] <+: l ++ u ↔ mark :: body ++ [mark] <+: l := by
  refine ⟨fun hp => ?_, fun hp => hp.trans (List.prefix_append l u)⟩
  rcases List.prefix_or_prefix_of_prefix hp (List.prefix_append l u) with hin | hout
  · exact hin
  · by_cases hall : l = mark :: body ++ [mark]
    · exact ⟨[], by rw [List.append_nil, hall]⟩
    cases l with
    | nil =>
      -- the mark is no comment and no newline
      have hmark := h.inside [mark] (List.prefix_append [mark] (body ++ [mark])) (by simp) (by simp)
      have hhead : u.head? = some mark := by
        obtain ⟨tail, htail⟩ := hp
        rw [List.nil_append] at htail
        rw [← htail]
        rfl
      rcases hu mark hhead with rfl | rfl <;> cases hmark
    | cons c l =>
      have hopen := h.inside _ hout (by simp) hall
      rw [Closed, hopen] at hl
      cases hl

/-- **Where no literal is open, no lexeme reaches into a comment.** -/
theorem shields_codeEnd : Shields Balanced Closed AtCodeEnd where
  lexemes := balanced_holdsOfLexemes
  keeps _ _ hb hl := hb.closed_iff.2 hl
  codeEnd _ h := h
  character l u hl hu := by
    refine Option.ext fun body => ?_
    rw [character?_eq_some_iff, character?_eq_some_iff]
    exact and_congr_right fun hbody =>
      ((Zone.isBody_character hbody).isLiteral (.inr rfl)).prefix_append_iff hl hu
  string l u hl hu := by
    refine Option.ext fun body => ?_
    rw [string?_eq_some_iff, string?_eq_some_iff]
    exact and_congr_right fun hbody =>
      ((Zone.isBody_string hbody).isLiteral (.inl rfl)).prefix_append_iff hl hu

/-! ## Reading up to a comment -/

theorem Cursor.closed_skipBlanks_iff (c : Cursor) : Closed c.skipBlanks.rest ↔ Closed c.rest := by
  obtain ⟨last, hafter, hend⟩ := Zone.after_blanks false c.rest
  rw [skipBlanks_rest]
  cases last with
  | false => exact Balanced.closed_iff hafter
  | true =>
    -- nothing but blanks
    rw [hend rfl, List.take_length] at hafter
    rw [hend rfl, List.drop_length, Closed, Closed, ← Zone.ofBlank, hafter]
    exact iff_of_true rfl rfl

namespace Program

/-- No literal is open at the end of a program. -/
theorem closed_of_read {c : Cursor} {p : Program} (hc : c.past = 0) (h : read c = .ok p) :
    Closed c.rest := by
  refine read_induction (motive := fun c _ => Closed c.rest) ?_ ?_ hc h
  · intro c _ hend
    rw [← c.closed_skipBlanks_iff, hend]
    rfl
  · intro c v after p _ hitem _ hclosed
    obtain ⟨n, -, rfl, hbal⟩ := Parser.item_balanced _ _ _ hitem
    rw [Cursor.advance_rest] at hclosed
    rw [← c.closed_skipBlanks_iff]
    exact hbal.closed_iff.1 hclosed

/-- One round before the end of the code: the item that is read if the text ends there is read. -/
theorem round_before {t : List Char} (ht : AtCodeEnd t) {c d : Cursor} (h : Beside [] t 0 0 c d)
    (hclosed : Closed c.rest) {v : Item} {n : Nat} (hn : n ≤ c.rest.length)
    (hitem : Parser.item c.skipBlanks = .matched v (c.advance n)) :
    Beside [] t 0 0 (c.advance n) (d.advance n) ∧
      read d = (read (d.advance n)).map fun p =>
        { items := (v, c.skipBlanks.line) :: p.items } := by
  obtain ⟨l, hcr, hdr⟩ := h.rest
  rw [List.append_nil] at hcr
  subst hcr
  have hmore : blankLength false c.rest < c.rest.length := by
    refine Nat.lt_of_not_le fun hle => ?_
    have hnil : c.skipBlanks.rest = [] := by
      rw [Cursor.skipBlanks_rest, List.drop_eq_nil_iff]
      exact hle
    rw [Parser.item_of_nil hnil] at hitem
    cases hitem
  have hblank : blankLength false d.rest = blankLength false c.rest := by
    rw [hdr, blankLength_append_of_lt hmore]
  have hskip : Beside [] t 0 0 c.skipBlanks d.skipBlanks := by
    rw [Cursor.skipBlanks, Cursor.skipBlanks, hblank]
    exact h.advance (by simp) hdr (Nat.le_of_lt hmore)
  have hplace : (besideWhere Closed [] t 0 0).place c.skipBlanks d.skipBlanks :=
    ⟨hskip, c.skipBlanks.rest, by simp, c.closed_skipBlanks_iff.2 hclosed⟩
  have hnil : AtCodeEnd [] := atLineEnd_nil.codeEnd
  rcases (item_besideWhere shields_codeEnd hnil ht).reply_cases hplace with
    ⟨hi, -⟩ | ⟨f, g, hi, -⟩ | ⟨w, after, after', hi, hj, hat, -⟩
  · rw [hitem] at hi
    cases hi
  · rw [hitem] at hi
    cases hi
  · rw [hitem] at hi
    cases hi
    -- both runs have read as much, by their offsets
    obtain ⟨m, hm, rfl, -⟩ := Parser.item_ensures _ _ _ hj
    have hoff := hat.offset
    rw [Cursor.advance_offset (Cursor.skipBlanks_past h.pastRight) hm, Cursor.skipBlanks,
      Cursor.advance_offset h.pastRight (blankLength_le _ _), hblank,
      Cursor.advance_offset h.pastLeft hn, h.offset] at hoff
    have hafter : d.skipBlanks.advance m = d.advance n := by
      rw [Cursor.skipBlanks, Cursor.advance_advance, hblank]
      congr 1
      omega
    rw [hafter] at hat hj
    refine ⟨hat, ?_⟩
    rw [read_matched h.pastRight hj, hskip.line, Int.add_zero]

/-- The items `p` are read from a place on, whatever follows the text after the end of the code, and
reading goes on after `n` characters, with blanks. -/
structure ReadBefore (c : Cursor) (p : Program) (n : Nat) : Prop where
  within : n ≤ c.rest.length
  blank : blankLength false (c.rest.drop n) = (c.rest.drop n).length
  reads : ∀ t d, AtCodeEnd t → Beside [] t 0 0 c d → read d = (read (d.advance n)).map p.append

/-- **A program is read in the same way before a comment.** -/
theorem read_before {c : Cursor} {p : Program} (hc : c.past = 0) (h : read c = .ok p) :
    ∃ n, ReadBefore c p n := by
  refine read_induction (motive := fun c p => ∃ n, ReadBefore c p n) ?_ ?_ hc h
  · intro c _ hend
    rw [Cursor.skipBlanks_rest, List.drop_eq_nil_iff] at hend
    refine ⟨0, Nat.zero_le _, Nat.le_antisymm (blankLength_le _ _) hend, fun t d _ _ => ?_⟩
    rw [Cursor.advance_zero]
    cases read d <;> rfl
  · intro c v after p hc hitem hread ih
    have hclosed : Closed c.rest := closed_of_read hc (by rw [read_matched hc hitem, hread]; rfl)
    obtain ⟨m, hm, rfl, -⟩ := Parser.item_ensures _ _ _ hitem
    obtain ⟨k, hk, hblank, hgo⟩ := ih
    rw [Cursor.skipBlanks_rest, List.length_drop] at hm
    have hle := blankLength_le false c.rest
    have hafter : c.skipBlanks.advance m = c.advance (blankLength false c.rest + m) :=
      Cursor.advance_advance _ _ c
    rw [hafter] at hitem hk hblank hgo
    rw [Cursor.advance_rest, List.drop_drop] at hblank
    rw [Cursor.advance_rest, List.length_drop] at hk
    refine ⟨blankLength false c.rest + m + k, by omega, hblank, fun t d ht hd => ?_⟩
    obtain ⟨hbeside, hround⟩ := round_before ht hd hclosed (by omega) hitem
    rw [hround, hgo t _ ht hbeside, Cursor.advance_advance]
    cases read (d.advance (blankLength false c.rest + m + k)) <;> rfl

/-! ## The comment -/

/-- From blanks that reach over a newline, reading goes on after the newline. -/
theorem read_over_newline {x u : List Char} {n : Nat} (hn : n ≤ x.length)
    (h : blankLength false (x.drop n ++ '\n' :: u) =
      (x.drop n).length + 1 + blankLength false u) :
    read ((Cursor.start (x ++ '\n' :: u)).advance n) =
      read (.atOffset (x ++ '\n' :: u) (x.length + 1)) := by
  have hlen : x.length + 1 ≤ (x ++ '\n' :: u).length := by simp
  refine read_congr (Cursor.advance_past rfl n) (Cursor.atOffset_past hlen) ?_
  have hdrop : (x ++ '\n' :: u).drop (x.length + 1) = u := by simp
  rw [← Cursor.start_advance hlen, Cursor.skipBlanks, Cursor.skipBlanks, Cursor.advance_rest,
    Cursor.advance_rest, Cursor.start, List.drop_append_of_le_length hn, h, hdrop,
    Cursor.advance_advance, Cursor.advance_advance, List.length_drop]
  congr 1
  omega

/-- **A comment before a newline changes nothing**, before tabs and files come in. -/
theorem read_comment {l comment : List Char} {p : Program} (h : read (.start l) = .ok p)
    (hcomment : '\n' ∉ comment) (u : List Char) :
    read (.start (l ++ commentChar :: comment ++ '\n' :: u)) = read (.start (l ++ '\n' :: u)) := by
  obtain ⟨n, hn, hblank, hreads⟩ := read_before rfl h
  obtain ⟨last, hlast⟩ := blankLength_append_of_eq hblank
  simp only [Cursor.start] at hn hlast
  have hbefore : ∀ t, AtCodeEnd t → read (.start (l ++ t)) =
      (read ((Cursor.start (l ++ t)).advance n)).map p.append := fun t ht =>
    hreads t _ ht ⟨⟨l, by simp [Cursor.start], rfl⟩, rfl, rfl, rfl, rfl, rfl⟩
  have hplain : read ((Cursor.start (l ++ '\n' :: u)).advance n) =
      read (.atOffset (l ++ '\n' :: u) (l.length + 1)) := by
    refine read_over_newline hn ?_
    rw [hlast, blankLength_newline]
    omega
  have hcommented : read ((Cursor.start (l ++ commentChar :: comment ++ '\n' :: u)).advance n) =
      read (.atOffset (l ++ commentChar :: comment ++ '\n' :: u)
        ((l ++ commentChar :: comment).length + 1)) := by
    refine read_over_newline (by simp; omega) ?_
    rw [List.drop_append_of_le_length hn, List.append_assoc, hlast, List.cons_append,
      blankLength_commentChar, blankLength_comment hcomment (atLineEnd_newline u),
      blankLength_newline, List.length_append, List.length_cons]
    omega
  -- the text after the newline is read on the same line
  have hcount : (l ++ commentChar :: comment ++ ['\n']).count '\n' = (l ++ ['\n']).count '\n' := by
    have hnone : (commentChar :: comment).count '\n' = 0 := by
      simp [List.count_eq_zero, hcomment, commentChar]
    rw [List.count_append, List.count_append, hnone, List.count_append, Nat.add_zero]
  rw [hbefore _ (atLineEnd_newline u).codeEnd, hplain, List.append_assoc, hbefore]
  · rw [← List.append_assoc, hcommented, read_shift (beside_after_newline _ u),
      read_shift (beside_after_newline _ u), hcount]
  · rintro c ⟨⟩
    exact .inr rfl

/-- **A comment at the end of a line changes nothing.** If a text is a program, then before a
newline it can be followed by a comment: whatever comes after the newline, the outcome is the same,
lines and columns included. -/
theorem ofText_comment {a comment : List Char} {file : Option String} {w : Int} {p : Program}
    (h : ofText a file w = .ok p) (hcomment : '\n' ∉ comment) (b : List Char) :
    ofText (a ++ '#' :: comment ++ '\n' :: b) file w = ofText (a ++ '\n' :: b) file w := by
  obtain ⟨expanded, hexp, hread⟩ := ofText_eq_ok h
  rw [Text.expandTabs] at hexp
  split at hexp
  · rename_i hw
    obtain rfl := Except.ok.inj hexp
    let column := Text.columnAfter w.toNat 0 (a ++ [commentChar])
    have hnone : '\n' ∉ Text.expandTabsFrom w.toNat column comment := by
      rw [← List.count_eq_zero, Text.count_newline_expandTabsFrom, List.count_eq_zero]
      exact hcomment
    have hsplit : Text.expandTabsFrom w.toNat 0 (a ++ '#' :: comment) =
        Text.expandTabsFrom w.toNat 0 a ++
          commentChar :: Text.expandTabsFrom w.toNat column comment := by
      have happ : a ++ '#' :: comment = a ++ [commentChar] ++ comment := by
        rw [List.append_assoc]
        rfl
      rw [happ, Text.expandTabsFrom_append, Text.expandTabsFrom_append,
        Text.expandTabsFrom_singleton, if_neg (by decide), List.append_assoc]
      rfl
    rw [ofText_of_tabWidth hw, ofText_of_tabWidth hw, Text.expandTabsFrom_append_newline,
      Text.expandTabsFrom_append_newline, hsplit, read_comment hread hnone]
  · cases hexp

/-- A comment with a mark, a tab and a dollar sign, after an instruction and before a label. -/
theorem ofText_comment_load :
    ofText "lw $t0, ($sp)".toList none 8 = .ok { items :=
        [(.instruction { mnemonic := "lw", col := 1, operands :=
          [(.register ⟨8⟩, 4), (.memory ⟨29⟩ none, 9)] }, 1)] } ∧
      '\n' ∉ "don't:\t$x".toList ∧
      ofText ("lw $t0, ($sp)".toList ++ '#' :: "don't:\t$x".toList ++ '\n' :: "end:".toList) none
          8 = .ok { items :=
          [(.instruction { mnemonic := "lw", col := 1, operands :=
              [(.register ⟨8⟩, 4), (.memory ⟨29⟩ none, 9)] }, 1),
            (.label "end", 2)] } := by
  have ha : (ofText "lw $t0, ($sp)".toList none 8).toOption = some { items :=
      [(.instruction { mnemonic := "lw", col := 1, operands :=
        [(.register ⟨8⟩, 4), (.memory ⟨29⟩ none, 9)] }, 1)] } := by
    decide +kernel
  have hb : (ofText ("lw $t0, ($sp)".toList ++ '\n' :: "end:".toList) none 8).toOption =
      some { items :=
        [(.instruction { mnemonic := "lw", col := 1, operands :=
            [(.register ⟨8⟩, 4), (.memory ⟨29⟩ none, 9)] }, 1),
          (.label "end", 2)] } := by
    decide +kernel
  have hcomment : '\n' ∉ "don't:\t$x".toList := by decide
  refine ⟨eq_ok_of_toOption ha, hcomment, ?_⟩
  rw [ofText_comment (eq_ok_of_toOption ha) hcomment, eq_ok_of_toOption hb]

end Program

end MipsSource
