import MipsSource.Item.Render
import MipsSource.Proofs.ItemSpec
import MipsSource.Proofs.Numerals
import MipsSource.Proofs.Reads

/-!
# Reading back names, numbers, registers and quoted literals

What is written for the smallest pieces of an item is read back where no word goes on after it, and
what starts with the wrong character is refused.

* `Parser.ReadsBack`: a text is there, on one line, and a parser reads it back.
* `Parser.identifier_reads`, `Parser.string_reads`: names and strings from their text.
* `Parser.integer_refuses`, `Parser.register_refuses`, ...: refused by the first character.
-/

set_option autoImplicit false

namespace MipsSource

/-! ## Texts on one line -/

/-- A text that can follow blanks and a space: it starts with no blank, comment or colon, and has no
tab or newline. -/
structure IsInline (text : List Char) : Prop where
  head : ∃ c rest, text = c :: rest ∧ c ∉ [' ', '\r', '#', ':']
  no_tab : '\t' ∉ text
  no_newline : '\n' ∉ text

/-- The text of a rendering, empty if there is none. -/
def written : Except Fault String → List Char
  | .ok s => s.toList
  | .error _ => []

theorem IsInline.ne_nil {text : List Char} (h : IsInline text) : text ≠ [] := by
  obtain ⟨c, rest, rfl, -⟩ := h.head
  exact List.cons_ne_nil c rest

/-- Pieces without tabs and newlines can be put together; the first gives the head. -/
theorem IsInline.append {front back : List Char} (h : IsInline front) (ht : '\t' ∉ back)
    (hn : '\n' ∉ back) : IsInline (front ++ back) where
  head := by
    obtain ⟨c, rest, rfl, hc⟩ := h.head
    exact ⟨c, rest ++ back, rfl, hc⟩
  no_tab := by simp [h.no_tab, ht]
  no_newline := by simp [h.no_newline, hn]

/-- A text of characters that `p` takes, where `p` takes no blank. -/
theorem IsInline.of_all {p : Char → Bool} {text : List Char}
    (hblank : ([' ', '\r', '#', ':'] ++ ['\t', '\n']).all (fun c => !p c) = true)
    (hne : text ≠ []) (hall : ∀ c ∈ text, p c = true) : IsInline text := by
  have hnot : ∀ c ∈ [' ', '\r', '#', ':'] ++ ['\t', '\n'], c ∉ text := by
    intro c hc hmem
    have hfalse := List.all_eq_true.1 hblank c hc
    rw [hall c hmem] at hfalse
    cases hfalse
  obtain ⟨c, rest, rfl⟩ := List.exists_cons_of_ne_nil hne
  refine ⟨⟨c, rest, rfl, fun hc => ?_⟩, hnot '\t' (by simp), hnot '\n' (by simp)⟩
  exact hnot c (List.mem_append_left _ hc) List.mem_cons_self

namespace Parser

variable {α β : Type}

/-- The rendering is there, on one line, and `p` reads it back where `T` holds of what follows. -/
structure ReadsBack (p : Parser α) (rendering : Except Fault String) (T : List Char → Prop)
    (V : α → Prop) : Prop where
  ok : rendering = .ok (String.ofList (written rendering))
  inline : IsInline (written rendering)
  reads : ∀ tail, T tail → p.Reads (written rendering) tail V

theorem ReadsBack.intro {p : Parser α} {rendering : Except Fault String} {text : String}
    {T : List Char → Prop} {V : α → Prop} (h : rendering = .ok text)
    (hinline : IsInline text.toList) (hreads : ∀ tail, T tail → p.Reads text.toList tail V) :
    p.ReadsBack rendering T V := by
  subst h
  exact ⟨by simp [written], hinline, hreads⟩

end Parser

/-! ## Refused by the first character -/

namespace Lexeme

variable {c : Char}

theorem not_digit_of_wordStart (h : isWordStart c = true) : c.isDigit = false := by
  cases hd : c.isDigit with
  | false => rfl
  | true =>
    have hfalse := Numeral.forall_digit (P := fun c => isWordStart c = false) (by decide) hd
    rw [h] at hfalse
    cases hfalse

theorem not_sign_of_wordStart (h : isWordStart c = true) : Numeral.isSign c = false := by
  have hplus : c ≠ '+' := ne_of_test h (by decide)
  have hminus : c ≠ '-' := ne_of_test h (by decide)
  simp [Numeral.isSign, hplus, hminus]

theorem integer?_head (hs : Numeral.isSign c = false) (hd : c.isDigit = false) (l : List Char) :
    integer? (c :: l) = none := by
  have hsign : sign (c :: l) = [] := by simp [sign, hs]
  simp only [integer?, hsign, List.length_nil, List.drop_zero, List.nil_append,
    List.takeWhile_cons]
  split
  · have hdigits : ∀ w, isDigits 10 (c :: w) = false := fun w => by
      simp [isDigits, Numeral.digitBelow?_of_not_digit hd]
    have hzero : c ≠ '0' := (ne_of_test (p := Char.isDigit) (by decide) hd).symm
    have hmarked : ∀ w, isMarked (fun _ => true) (c :: w) = false := fun w => by
      cases w <;> simp [isMarked, hzero]
    simp [isNumeral, hdigits, hmarked]
  · rfl

theorem decimal?_head (hs : Numeral.isSign c = false) (hd : c.isDigit = false) (l : List Char) :
    decimal? (c :: l) = none := by
  have hwhole : wholeDigits (c :: l) = [] := by simp [wholeDigits, sign, hs, hd]
  rw [decimal?_eq, if_neg fun h => h.1 hwhole]

theorem registerName?_head (h : c ≠ '$') (l : List Char) : registerName? (c :: l) = none := by
  simp [registerName?, h]

theorem character?_head (h : c ≠ '\'') (l : List Char) : character? (c :: l) = none := by
  rw [character?.eq_def]
  split
  · rename_i he; cases he; exact absurd rfl h
  · rename_i he; cases he; exact absurd rfl h
  · rfl

theorem identifier?_head (h : isWordStart c = false) (l : List Char) :
    identifier? (c :: l) = none := by
  simp [identifier?, h]

end Lexeme

namespace Parser

theorem word_reads {lexeme? : List Char → Option (List Char)} (found : List Char)
    {tail : List Char} (h : lexeme? (found ++ tail) = some found) :
    (word lexeme?).Reads found tail (· = String.ofList found) := by
  unfold word
  exact .scan (by rw [h]; rfl)

theorem word_refuses {lexeme? : List Char → Option (List Char)} {text : List Char}
    (h : lexeme? text = none) : (word lexeme?).Refuses text := by
  unfold word
  exact .scan (by rw [h]; rfl)

section
variable {c : Char} {l : List Char}

theorem integer_refuses (hs : Numeral.isSign c = false) (hd : c.isDigit = false) :
    integer.Refuses (c :: l) :=
  .bind (.scan (by rw [Lexeme.integer?_head hs hd]; rfl))

theorem placedInteger_refuses (hs : Numeral.isSign c = false) (hd : c.isDigit = false) :
    placedInteger.Refuses (c :: l) :=
  .bind_nil (.position _) fun _ _ => (integer_refuses hs hd).bind

theorem float_refuses (hs : Numeral.isSign c = false) (hd : c.isDigit = false) :
    float.Refuses (c :: l) :=
  .map (.scan (Lexeme.decimal?_head hs hd l))

theorem register_refuses (h : c ≠ '$') : register.Refuses (c :: l) :=
  Refuses.bind_nil (.position _) fun _ _ =>
    .bind (.scan (by rw [Lexeme.registerName?_head h]; rfl))

theorem character_refuses (h : c ≠ '\'') : character.Refuses (c :: l) :=
  .bind (.scan (by rw [Lexeme.character?_head h]; rfl))

theorem identifier_refuses (h : Lexeme.isWordStart c = false) : identifier.Refuses (c :: l) :=
  word_refuses (Lexeme.identifier?_head h l)

theorem tag_refuses_head {word : String} {d : Char} (hword : word.toList = [d]) (h : c ≠ d) :
    (tag word).Refuses (c :: l) :=
  .tag fun hpre => h (by
    rw [hword] at hpre
    exact (List.cons_prefix_cons.1 hpre).1.symm)

end

end Parser

/-! ## Names and numbers -/

theorem Lexeme.identifier?_name {name tail : List Char} (hname : IsIdentifier name)
    (ht : startsWord tail = false) : identifier? (name ++ tail) = some name := by
  cases name with
  | nil => exact hname.elim
  | cons c rest =>
    rw [List.cons_append, identifier?, if_pos hname.1, takeWhile_word (fun _ h => h) hname.2 ht]

theorem IsName.inline {name : String} (h : IsName name) : IsInline name.toList :=
  .of_all (by decide) (Lexeme.IsIdentifier.ne_nil h) (Lexeme.IsIdentifier.all_wordChar h)

theorem IsName.head {name : String} (h : IsName name) :
    ∃ c rest, name.toList = c :: rest ∧ Lexeme.isWordStart c = true := by
  cases hn : name.toList with
  | nil =>
    rw [IsName, hn] at h
    exact h.elim
  | cons c rest =>
    rw [IsName, hn] at h
    exact ⟨c, rest, rfl, h.1⟩

theorem IsImmediate.showable {i : Int} (h : IsImmediate i) : Numeral.isShowable i = true := by
  obtain ⟨hlo, hhi⟩ := h
  exact Numeral.isShowable_of_bounds (by omega) (by omega)

/-- A decimal numeral has no blanks. -/
theorem inline_text (i : Int) : IsInline (Numeral.text i).toList := by
  rw [Numeral.toList_text]
  have hw := Numeral.isDecimal_toDigits i.natAbs
  refine .of_all (p := Numeral.numeralChars.contains) (by decide) (by simp [hw.1]) ?_
  intro c hc
  exact List.contains_iff_mem.2 (Numeral.mem_numeralChars hw _ c hc)

namespace Parser

variable {tail : List Char}

theorem identifier_reads {name : String} (hname : IsName name)
    (ht : Lexeme.startsWord tail = false) : identifier.Reads name.toList tail (· = name) :=
  (word_reads _ (Lexeme.identifier?_name hname ht)).mono fun v hv => by
    rw [hv, String.ofList_toList]

end Parser

/-! ## Registers -/

theorem Register.isNumber_name (r : Register) : isNumber r.name.toList = false := by
  obtain ⟨i⟩ := r
  revert i
  decide

theorem Register.resolve_name (r : Register) : resolve r.name.toList = .ok r := by
  have hint : int32? r.name.toList = .ok none := by
    rw [int32?, isNumber_name]
    rfl
  rw [resolve, hint, map_smallLetter_name, String.ofList_toList]
  simp only [bind, Except.bind, ofName?_name]
  rfl

theorem Register.toList_render (r : Register) : r.render.toList = '$' :: r.name.toList := by
  rw [render, String.toList_append]
  rfl

theorem Register.inline_render (r : Register) : IsInline r.render.toList := by
  rw [toList_render]
  refine .of_all (p := fun c => Lexeme.isNameChar c || c = '$') (by decide) (by simp)
    (List.all_eq_true.1 ?_)
  obtain ⟨i⟩ := r
  revert i
  decide

/-! ## Quoted literals -/

namespace Text

/-- A character in a literal is written as itself or after a backslash, and not as one that breaks
or moves the line. -/
theorem escapeChar_cases {mark : Char} (hm : mark = '"' ∨ mark = '\'') (c : Char) :
    (∃ letter, escapeChar mark c = ['\\', letter] ∧ letter ∉ ['\n', '\t', '\r']) ∨
      (escapeChar mark c = [c] ∧ c ≠ mark ∧ c ≠ '\\' ∧ c ∉ ['\n', '\t', '\r']) := by
  unfold escapeChar
  split
  · rename_i hc
    refine .inl ⟨c, rfl, ?_⟩
    rcases hm with hm | hm <;> rw [hc, hm] <;> decide
  · rename_i hmark
    split
    · exact .inl ⟨'n', rfl, by decide⟩
    · rename_i hn
      split
      · exact .inl ⟨'t', rfl, by decide⟩
      · rename_i ht
        split
        · exact .inl ⟨'r', rfl, by decide⟩
        · rename_i hr
          split
          · exact .inl ⟨'0', rfl, by decide⟩
          · split
            · exact .inl ⟨'\\', rfl, by decide⟩
            · rename_i hb
              exact .inr ⟨rfl, hmark, hb, by simp [hn, ht, hr]⟩

theorem not_mem_of_mem_escape {mark : Char} (hm : mark = '"' ∨ mark = '\'') {text : List Char}
    {c : Char} (h : c ∈ escape mark text) : c ∉ ['\n', '\t', '\r'] := by
  obtain ⟨source, -, hc⟩ := List.mem_flatMap.1 h
  rcases escapeChar_cases hm source with ⟨letter, he, hletter⟩ | ⟨he, -, -, hsource⟩
  · rw [he] at hc
    rcases List.mem_cons.1 hc with rfl | hc
    · decide
    · rwa [List.mem_singleton.1 hc]
  · rw [he] at hc
    rwa [List.mem_singleton.1 hc]

theorem isStringBody_escape (text : List Char) : Lexeme.IsStringBody (escape '"' text) := by
  induction text with
  | nil => exact .nil
  | cons c text ih =>
    rw [escape, List.flatMap_cons, ← escape]
    rcases escapeChar_cases (.inl rfl) c with ⟨letter, he, hletter⟩ | ⟨he, hq, hb, hc⟩
    · rw [he]
      exact .escape (fun hn => hletter (by simp [hn])) ih
    · rw [he]
      exact .plain hq hb (fun hn => hc (by simp [hn])) ih

end Text

theorem toList_quotedLiteral (mark : Char) (text : String) :
    (quotedLiteral mark text).toList = mark :: Text.escape mark text.toList ++ [mark] := by
  rw [quotedLiteral, String.toList_ofList]

theorem inline_quotedLiteral {mark : Char} (hm : mark = '"' ∨ mark = '\'') (text : String) :
    IsInline (quotedLiteral mark text).toList := by
  have hnot : ∀ c ∈ ['\n', '\t', '\r'], c ∉ Text.escape mark text.toList :=
    fun c hc h => Text.not_mem_of_mem_escape hm h hc
  have htab := hnot '\t' (by simp)
  have hnewline := hnot '\n' (by simp)
  rw [toList_quotedLiteral]
  refine ⟨⟨mark, _, List.cons_append, ?_⟩, ?_, ?_⟩
  · rcases hm with rfl | rfl <;> decide
  · rcases hm with rfl | rfl <;> simp [htab]
  · rcases hm with rfl | rfl <;> simp [hnewline]

namespace Parser

theorem quoted_reads {body? : List Char → Option (List Char)} {mark : Char}
    {body value tail : List Char} (h : body? (mark :: (body ++ [mark]) ++ tail) = some body)
    (hu : Text.unescape body = some value) :
    (quoted body?).Reads (mark :: (body ++ [mark])) tail (· = String.ofList value) := by
  have hlen : (mark :: (body ++ [mark])).length = body.length + 2 := by simp
  have hscan : (scan fun text => (body? text).map fun body => (body, body.length + 2)).Reads
      (mark :: (body ++ [mark])) tail (· = body) :=
    .scan (by rw [h, hlen]; rfl)
  refine .bind_pure hscan fun found hfound => ?_
  subst hfound
  exact .ofOption (by rw [hu]; rfl) tail

theorem string_reads (text : String) (tail : List Char) :
    string.Reads (quotedLiteral '"' text).toList tail (· = text) := by
  have hbody : Lexeme.string? ('"' :: (Text.escape '"' text.toList ++ ['"']) ++ tail) =
      some (Text.escape '"' text.toList) :=
    Lexeme.string?_eq_some_iff.2 ⟨Text.isStringBody_escape _, List.prefix_append _ _⟩
  rw [toList_quotedLiteral]
  exact (quoted_reads hbody (Text.unescape_escape (.inl rfl) _)).mono fun v hv => by
    rw [hv, String.ofList_toList]

end Parser

end MipsSource
