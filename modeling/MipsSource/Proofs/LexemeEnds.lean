import MipsSource.Proofs.Seam

/-!
# Lexemes end at seams

What a scanner finds is made of characters of words and numbers (`Spans`), or it ends with a mark of
its own; so it does not end inside a register, and behind it there is a seam:

* `identifier?_ends`, `integer?_ends`, `symbolOffset?_ends`, ...: words and numbers.
* `ends_of_last`: pieces that end with a mark, such as quoted literals.
* `registerName?_ends`: registers.
-/

set_option autoImplicit false

namespace MipsSource.Lexeme

section
variable {text : List Char}

/-- A run of characters of a word, after `a` characters, ends at a seam. -/
theorem seam_after_word (a : Nat) :
    SeamAt text (a + ((text.drop a).takeWhile isWordChar).length) := by
  refine .inr (.inl ?_)
  rw [← List.drop_drop, drop_length_takeWhile]
  exact startsWord_dropWhile _

theorem seam_spaces (text : List Char) : SeamAt text (spaces text).length := by
  have htake : text.take (spaces text).length = spaces text :=
    (List.prefix_iff_eq_take.1 (List.takeWhile_prefix _)).symm
  rw [SeamAt, htake]
  rcases List.eq_nil_or_concat (spaces text) with hs | ⟨before, c, hs⟩
  · rw [hs]
    exact seam_nil _
  · have hmem : c ∈ spaces text := by simp [hs]
    have hspace : c = ' ' := by simpa using List.all_eq_true.1 List.all_takeWhile c hmem
    rw [hs, List.concat_eq_append, hspace]
    exact seam_of_last (by decide) _ _

theorem identifier?_ends {name : List Char} (h : identifier? text = some name) :
    Spans isPlain text name.length ∧ SeamAt text name.length := by
  cases text with
  | nil => cases h
  | cons c rest =>
    rw [identifier?] at h
    split at h
    · rename_i hc
      cases h
      have hword := isWordChar_of_wordStart hc
      have hrun : c :: rest.takeWhile isWordChar = (c :: rest).takeWhile isWordChar := by
        rw [List.takeWhile_cons, if_pos hword]
      rw [hrun]
      refine ⟨spans_takeWhile (fun _ => isPlain_of_wordChar) _, ?_⟩
      have hseam := @seam_after_word (c :: rest) 0
      rwa [Nat.zero_add] at hseam
    · cases h

theorem directiveName?_ends {name : List Char} (h : directiveName? text = some name) :
    Spans isPlain text name.length ∧ SeamAt text name.length := by
  rw [directiveName?.eq_def] at h
  split at h
  · rename_i c rest
    split at h
    · rename_i hc
      cases h
      simp only [Bool.and_eq_true, Bool.not_eq_true'] at hc
      have hlen : ('.' :: c :: rest.takeWhile isNameChar).length =
          1 + (1 + (rest.takeWhile isNameChar).length) := by
        simp only [List.length_cons]
        omega
      rw [hlen]
      refine ⟨?_, .inr (.inl ?_)⟩
      · exact spans_cons (by decide) (spans_cons
          (isPlain_of_wordChar (isWordChar_of_wordStart hc.1))
          (spans_takeWhile (fun _ => isPlain_of_nameChar) rest))
      · rw [Nat.add_comm 1, Nat.add_comm 1, List.drop_succ_cons, List.drop_succ_cons,
          drop_length_takeWhile]
        exact hc.2
    · cases h
  · cases h

theorem integer?_ends {literal : List Char} (h : integer? text = some literal) :
    Spans isPlain text literal.length ∧ SeamAt text literal.length := by
  simp only [integer?] at h
  split at h
  · cases h
    rw [List.length_append]
    exact ⟨(spans_sign (fun _ => isPlain_of_sign) text).add
      (spans_takeWhile (fun _ => isPlain_of_wordChar) _), seam_after_word _⟩
  · cases h

theorem decimal?_ends {d : Binary64.Decimal} {n : Nat} (h : decimal? text = some (d, n)) :
    Spans isPlain text n ∧ SeamAt text n := by
  rw [decimal?_eq] at h
  split at h
  · rename_i hc
    cases h
    exact ⟨spans_decimal text, .inr (.inl (Bool.not_eq_true _ ▸ hc.2.2))⟩
  · cases h

theorem symbolOffset?_ends {found : Char × List Char} {n : Nat}
    (h : symbolOffset? text = some (found, n)) :
    Spans isPlain text n ∧ SeamAt text n := by
  simp only [symbolOffset?] at h
  split at h
  · rename_i mark rest hr
    split at h
    · rename_i hc
      cases h
      have hmark := (Bool.and_eq_true_iff.1 hc).1
      have hspan : Spans isPlain (text.drop (spaces text).length) (1 + (spaces rest).length) := by
        rw [hr]
        exact spans_cons (isPlain_of_sign hmark) (spans_spaces rest)
      have hbefore := (spans_spaces text).add hspan
      have hdrop : text.drop ((spaces text).length + (1 + (spaces rest).length)) =
          rest.drop (spaces rest).length := by
        rw [← List.drop_drop, hr, Nat.add_comm 1, List.drop_succ_cons]
      rw [Nat.add_assoc (spaces text).length, ← hdrop]
      exact ⟨hbefore.add (spans_takeWhile (fun _ => isPlain_of_wordChar) _), seam_after_word _⟩
    · cases h
  · cases h

theorem IsRegisterName.plain {w : List Char} (h : IsRegisterName w) :
    ∀ c ∈ w, isPlain c = true := by
  obtain ⟨mark, name, rfl, hm, -, hname⟩ := h
  exact Numeral.forall_literal hm hname (by decide) (by decide) fun _ => isPlain_of_nameChar

/-- A piece that ends with a character of no word and no register ends at a seam, and not inside a
register. -/
theorem ends_of_last {piece : List Char} {q : Char} (hplain : isPlain q = false) (hq : q ≠ '$')
    (h : piece ++ [q] <+: text) :
    Whole text (piece ++ [q]).length ∧ SeamAt text (piece ++ [q]).length := by
  constructor
  · rintro a w rfl hw
    refine .inl ?_
    obtain ⟨tail, ht⟩ := h
    rcases List.append_eq_append_iff.1 ht with ⟨b, rfl, -⟩ | ⟨b, hb, hrest⟩
    · simp
    · -- the piece ends inside the register, or right before it
      rcases List.eq_nil_or_concat b with rfl | ⟨b, x, rfl⟩
      · exact Nat.le_of_eq (by rw [hb, List.append_nil])
      · have hlast := congrArg List.getLast? hb
        rw [List.concat_eq_append, ← List.append_assoc, List.getLast?_concat,
          List.getLast?_concat] at hlast
        obtain rfl := Option.some.inj hlast
        have hin : q ∈ '$' :: w := by simp [hrest]
        rcases List.mem_cons.1 hin with rfl | hin
        · exact absurd rfl hq
        · rw [hw.plain q hin] at hplain
          cases hplain
  · rw [SeamAt, ← List.prefix_iff_eq_take.1 h]
    refine seam_of_last ?_ _ _
    cases hc : isWordChar q with
    | false => rfl
    | true => rw [isPlain_of_wordChar hc] at hplain; cases hplain

theorem quoted_ends {mark : Char} {body : List Char} (hplain : isPlain mark = false)
    (hm : mark ≠ '$') (h : mark :: body ++ [mark] <+: text) :
    Whole text (body.length + 2) ∧ SeamAt text (body.length + 2) := by
  have hends := ends_of_last hplain hm h
  simpa using hends

/-- A label ends with its colon. -/
theorem label?_ends {name : List Char} {n : Nat} (h : label? text = some (name, n)) :
    Whole text n ∧ SeamAt text n := by
  unfold label? at h
  split at h
  · cases h
  · rename_i w hw
    simp only at h
    split at h
    · rename_i rest hr
      cases h
      have hcolon : text.take (name.length + (spaces (text.drop name.length)).length) ++ [':']
          <+: text := by
        refine ⟨rest, ?_⟩
        rw [List.append_assoc, List.singleton_append, ← hr, List.take_append_drop]
      have hlen := hcolon.length_le
      have hends := ends_of_last (by decide) (by decide) hcolon
      have hsize : (text.take (name.length + (spaces (text.drop name.length)).length) ++
          [':']).length = name.length + (spaces (text.drop name.length)).length + 1 := by
        have hdrop := congrArg List.length hr
        rw [List.length_drop, List.length_cons] at hdrop
        rw [List.length_append, List.length_take, List.length_singleton]
        omega
      rw [hsize] at hends
      exact hends
    · cases h

theorem registerName?_name {w : List Char} (h : IsRegisterName w) :
    registerName? ('$' :: w) = some w := by
  obtain ⟨mark, name, rfl, hm, hne, hname⟩ := h
  have hsign : sign (mark ++ name) = mark := by
    rcases hm with rfl | rfl | rfl
    · cases name with
      | nil => rfl
      | cons c name => simp [sign, isSign_of_nameChar (hname c List.mem_cons_self)]
    · rfl
    · rfl
  have hrun : name.takeWhile isNameChar = name := by
    have happend := @List.takeWhile_append_of_pos _ isNameChar name [] hname
    simpa using happend
  rw [registerName?]
  simp only [hsign, List.drop_left, hrun, if_neg hne]

/-- A register ends at a seam; a point may follow it. -/
theorem registerName?_ends {name : List Char} (h : registerName? text = some name) :
    Whole text (name.length + 1) ∧ SeamAt text (name.length + 1) := by
  rw [registerName?.eq_def] at h
  split at h
  · rename_i rest
    simp only at h
    split at h
    · cases h
    · rename_i hne
      have hname : registerName? ('$' :: rest) = some name := by
        rw [registerName?]
        simp only [if_neg hne, h]
      cases h
      constructor
      · intro a w hl hw
        cases a with
        | nil =>
          obtain ⟨-, rfl⟩ := List.cons.inj hl
          rw [registerName?_name hw] at hname
          rw [← Option.some.inj hname]
          exact .inr rfl
        | cons x a =>
          obtain ⟨-, rfl⟩ := List.cons.inj hl
          have hspan := (spans_sign (fun _ => isPlain_of_sign) (a ++ '$' :: w)).add
            (spans_takeWhile (q := isNameChar) (fun _ => isPlain_of_nameChar) _)
          rw [← List.length_append] at hspan
          have hle := length_le_of_not_mem fun hmem => absurd (hspan '$' hmem) (by decide)
          exact .inl (Nat.succ_le_succ hle)
      · have hfront := registerName?_front hname
        have htake := List.prefix_iff_eq_take.1 hfront
        rw [List.length_cons] at htake
        rw [SeamAt, ← htake, List.drop_succ_cons, List.length_append, ← List.drop_drop,
          drop_length_takeWhile]
        cases hd : (rest.drop (sign rest).length).dropWhile isNameChar with
        | nil => exact .inr (.inl rfl)
        | cons c tail =>
          have hc : isNameChar c = false := by
            have hhead := List.head?_dropWhile_not isNameChar (rest.drop (sign rest).length)
            simpa [hd] using hhead
          by_cases hpoint : c = '.'
          · subst hpoint
            refine .inr (.inr ⟨rfl, [], _, rfl, ?_⟩)
            refine ⟨_, _, rfl, Numeral.isMark_sign rest, hne, fun c hc => ?_⟩
            exact List.all_eq_true.1 List.all_takeWhile c hc
          · exact .inr (.inl (by simp [startsWord, isWordChar, hc, hpoint]))
  · cases h

end

end MipsSource.Lexeme
