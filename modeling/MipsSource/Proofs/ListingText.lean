import MipsSource.Program.Listing
import MipsSource.Proofs.Outputs
import MipsSource.Proofs.RenderedText
import MipsSource.Proofs.SourceMap

/-!
# Listings are unambiguous

A line of a listing is the source line of an item, a tab and the item, which is indented unless it
is a label. No item that is read is written with a tab, a newline or a carriage return, and none
starts with a space, so nothing that an item holds can be taken for a part of the listing's form.

* `Program.IsRecord`: the line of a listing for an item.
* `Program.decode`: reading a listing back; `Program.decode_joinLines`: it finds the records.
* `Program.listing_unambiguous`: what the listing of every program that is read looks like.
-/

set_option autoImplicit false

namespace MipsSource

open CommandLine (FileTree Place Session joinLines joinLines_cons)
open Lexeme (gap)

namespace Program

/-! ## Records -/

/-- How many spaces stand before an item in a listing. -/
def indentWidth : Item → Nat
  | .label _ => 0
  | .directive _ => 4
  | .instruction _ => 4

/-- The line of a listing for an item: its source line, the only tab, and what is written of the
item, indented. -/
structure IsRecord (entry : Item × Int) (line : String) : Prop where
  rendered : entry.1.render = .ok (String.ofList (written entry.1.render))
  flush : ∀ c ∈ (written entry.1.render).head?, c ≠ ' '
  positive : 1 ≤ entry.2
  text : line.toList = (Numeral.text entry.2).toList ++
    '\t' :: (gap (indentWidth entry.1) ++ written entry.1.render)
  one_tab : line.toList.count '\t' = 1
  one_line : '\n' ∉ line.toList ∧ '\r' ∉ line.toList

theorem toList_listingLine {entry : Item × Int} {line : String}
    (h : listingLine entry = .ok line) :
    entry.1.render = .ok (String.ofList (written entry.1.render)) ∧
      line.toList = (Numeral.text entry.2).toList ++
        '\t' :: (gap (indentWidth entry.1) ++ written entry.1.render) := by
  have hindent : (indent entry.1).toList = gap (indentWidth entry.1) := by
    have hfour : "    ".toList = gap 4 := by decide
    cases entry.1 with
    | label name => rfl
    | directive d => exact hfour
    | instruction i => exact hfour
  obtain ⟨shown, hr, rfl⟩ := map_eq_ok h
  rw [hr]
  refine ⟨by rw [written, String.ofList_toList], ?_⟩
  simp [hindent, written]

/-- **The line of a well-formed item is a record.** -/
theorem isRecord_of_listingLine {entry : Item × Int} {line : String} (hwf : entry.1.WellFormed)
    (hpos : 1 ≤ entry.2) (h : listingLine entry = .ok line) : IsRecord entry line := by
  obtain ⟨hrender, hline⟩ := toList_listingLine h
  obtain ⟨first, rest, hhead, hfirst⟩ := Item.head_render hwf hrender
  have hshown := Item.rendersField hwf _ hrender
  rw [String.toList_ofList] at hhead
  rw [IsField, String.toList_ofList] at hshown
  -- the number, the indentation and the item hold none of the three characters
  have hnone : ∀ c ∈ ['\t', '\n', '\r'], c ∉ (Numeral.text entry.2).toList ∧
      c ∉ gap (indentWidth entry.1) ++ written entry.1.render := by
    intro c hc
    refine ⟨fun hmem => isField_text entry.2 c hmem hc, fun hmem => ?_⟩
    rcases List.mem_append.1 hmem with hmem | hmem
    · rw [List.eq_of_mem_replicate hmem] at hc
      exact absurd hc (by decide)
    · exact hshown c hmem hc
  obtain ⟨htab, htab'⟩ := hnone '\t' (by decide)
  have hother : ∀ c ∈ ['\n', '\r'], c ∉ line.toList := by
    intro c hc hmem
    obtain ⟨hleft, hright⟩ := hnone c (List.mem_cons_of_mem _ hc)
    rw [hline] at hmem
    rcases List.mem_append.1 hmem with hmem | hmem
    · exact hleft hmem
    · rcases List.mem_cons.1 hmem with rfl | hmem
      · exact absurd hc (by decide)
      · exact hright hmem
  refine ⟨hrender, ?_, hpos, hline, ?_, hother '\n' (by decide), hother '\r' (by decide)⟩
  · rw [hhead]
    intro c hc
    cases hc
    exact hfirst
  · rw [hline, List.count_append, List.count_cons_self, List.count_eq_zero_of_not_mem htab,
      List.count_eq_zero_of_not_mem htab']

/-! ## Reading a listing back -/

/-- The source line and the text of the item on a line of a listing. -/
def decodeLine (line : List Char) : Option (Int × List Char) :=
  match line.splitOn '\t' with
  | [number, shown] => some ((Lexeme.decimalValue number : Nat), shown.dropWhile (· = ' '))
  | _ => none

/-- The source lines and the texts of the items in a listing. -/
def decode (content : List Char) : Option (List (Int × List Char)) :=
  (content.splitOn '\n').dropLast.mapM decodeLine

theorem splitOn_cut {sep : Char} {front : List Char} (h : sep ∉ front) (rest : List Char) :
    (front ++ sep :: rest).splitOn sep = front :: rest.splitOn sep := by
  refine List.splitOnP_append_cons_of_forall_mem (fun _ hc => ?_) sep (by simp) rest
  exact beq_false_of_ne fun he => h (he ▸ hc)

theorem splitOn_of_not_mem {sep : Char} {text : List Char} (h : sep ∉ text) :
    text.splitOn sep = [text] :=
  List.splitOnP_eq_singleton fun _ hc => beq_false_of_ne fun he => h (he ▸ hc)

/-- The number before the tab is read back. -/
theorem decimalValue_text {n : Int} (h : 1 ≤ n) :
    ((Lexeme.decimalValue (Numeral.text n).toList : Nat) : Int) = n := by
  have hminus : decide (n < 0) = false := decide_eq_false (by omega)
  rw [Numeral.toList_text, hminus, Numeral.minus, if_neg (by decide), List.nil_append,
    (Spelling.isDigits_toDigits n.natAbs).decimalValue]
  omega

/-- The indentation is told from the item after it. -/
theorem dropWhile_gap {n : Nat} {text : List Char} (h : ∀ c ∈ text.head?, c ≠ ' ') :
    (gap n ++ text).dropWhile (· = ' ') = text := by
  have hspaces : ∀ c ∈ gap n, decide (c = ' ') = true := fun c hc =>
    decide_eq_true (List.eq_of_mem_replicate hc)
  rw [List.dropWhile_append_of_pos hspaces]
  cases text with
  | nil => rfl
  | cons c rest => rw [List.dropWhile_cons, if_neg (by simpa using h c rfl)]

theorem IsRecord.decodeLine {entry : Item × Int} {line : String} (h : IsRecord entry line) :
    decodeLine line.toList = some (entry.2, written entry.1.render) := by
  have hcount := h.one_tab
  rw [h.text, List.count_append, List.count_cons_self] at hcount
  have hnumber : '\t' ∉ (Numeral.text entry.2).toList := List.count_eq_zero.1 (by omega)
  have hshown : '\t' ∉ gap (indentWidth entry.1) ++ written entry.1.render :=
    List.count_eq_zero.1 (by omega)
  rw [Program.decodeLine, h.text, splitOn_cut hnumber, splitOn_of_not_mem hshown]
  simp only [decimalValue_text h.positive, dropWhile_gap h.flush]

theorem no_newline_of_records {entries : List (Item × Int)} {lines : List String}
    (h : List.Forall₂ IsRecord entries lines) : ∀ line ∈ lines, '\n' ∉ line.toList :=
  forall_right_of_forall₂ h fun _ _ hrecord => hrecord.one_line.1

theorem toList_joinLines (lines : List String) :
    (joinLines lines).toList = lines.flatMap fun line => line.toList ++ ['\n'] := by
  induction lines with
  | nil => rfl
  | cons line lines ih =>
    rw [joinLines_cons, String.toList_append, String.toList_append, ih, List.flatMap_cons]
    rfl

theorem splitOn_joinLines {lines : List String} (h : ∀ line ∈ lines, '\n' ∉ line.toList) :
    (joinLines lines).toList.splitOn '\n' = lines.map String.toList ++ [[]] := by
  induction lines with
  | nil => rfl
  | cons line lines ih =>
    have hcut : (joinLines (line :: lines)).toList =
        line.toList ++ '\n' :: (joinLines lines).toList := by
      rw [joinLines_cons]
      simp
    rw [hcut, splitOn_cut (h line List.mem_cons_self),
      ih fun other hother => h other (List.mem_cons_of_mem line hother)]
    rfl

/-- **A listing is read back**: its lines are found at the newlines, and the fields at the tabs. -/
theorem decode_joinLines {entries : List (Item × Int)} {lines : List String}
    (h : List.Forall₂ IsRecord entries lines) :
    decode (joinLines lines).toList =
      some (entries.map fun entry => (entry.2, written entry.1.render)) := by
  rw [decode, splitOn_joinLines (no_newline_of_records h), List.dropLast_concat]
  induction h with
  | nil => rfl
  | cons hrecord _ ih =>
    rw [List.map_cons, List.mapM_cons, hrecord.decodeLine, ih]
    rfl

theorem count_joinLines {lines : List String} (h : ∀ line ∈ lines, '\n' ∉ line.toList) :
    (joinLines lines).toList.count '\n' = lines.length := by
  induction lines with
  | nil => rfl
  | cons line lines ih =>
    have hrest := ih fun other hother => h other (List.mem_cons_of_mem line hother)
    rw [toList_joinLines] at hrest ⊢
    rw [List.flatMap_cons, List.count_append, List.count_append, hrest,
      List.count_eq_zero_of_not_mem (h line List.mem_cons_self), List.length_cons]
    simp [Nat.add_comm]

/-! ## Programs -/

/-- What is known of the items of a program that was read. -/
theorem wellFormed_of_ofText {text : List Char} {file : Option String} {tabWidth : Int}
    {p : Program} (h : ofText text file tabWidth = .ok p) :
    ∀ entry ∈ p.items, entry.1.WellFormed ∧ 1 ≤ entry.2 := by
  obtain ⟨expanded, -, hread⟩ := ofText_eq_ok h
  rw [Cursor.start_eq_atOffset] at hread
  obtain ⟨places, hall, -⟩ := read_itemsAt (Nat.zero_le _) hread
  intro entry hentry
  obtain ⟨place, hat⟩ := exists_itemAt hall entry hentry
  obtain ⟨n, -, -, hwf, -⟩ := Parser.item_ensures _ _ _ hat.reads
  refine ⟨hwf, ?_⟩
  rw [hat.line, Text.lineAt]
  omega

theorem records_of_listing {p : Program} {lines : List String}
    (h : ∀ entry ∈ p.items, entry.1.WellFormed ∧ 1 ≤ entry.2) (hl : p.listing = .ok lines) :
    List.Forall₂ IsRecord p.items lines :=
  (forall₂_of_mapM hl).imp fun entry _ hline =>
    isRecord_of_listingLine (h entry hline.1).1 (h entry hline.1).2 hline.2

/-- **The listing of a program is unambiguous.** Its lines are records of the items in order, a
newline stands at the end of each line and nowhere else, the records are recovered from the content,
and this content is what the file holds once the listing is written. -/
theorem listing_unambiguous {text : List Char} {file : Option String} {tabWidth : Int}
    {p : Program} {lines : List String} (h : ofText text file tabWidth = .ok p)
    (hl : p.listing = .ok lines) :
    List.Forall₂ IsRecord p.items lines ∧
      (joinLines lines).toList = (lines.flatMap fun line => line.toList ++ ['\n']) ∧
      (joinLines lines).toList.count '\n' = p.items.length ∧
      decode (joinLines lines).toList =
        some (p.items.map fun entry => (entry.2, written entry.1.render)) ∧
      ∀ {tree opened : FileTree} {path : String} {place : Place},
        tree.create path = .ok (place, opened) →
          ∃ after, (Session.writeLines place lines).run.run opened = (.ok (), after) ∧
            after.read path = .ok (joinLines lines).toUTF8 := by
  have hrecords := records_of_listing (wellFormed_of_ofText h) hl
  refine ⟨hrecords, toList_joinLines lines, ?_, decode_joinLines hrecords, ?_⟩
  · rw [count_joinLines (no_newline_of_records hrecords), hrecords.length_eq]
  · intro tree opened path place hcreate
    obtain ⟨-, -, -, -, -, rfl⟩ := FileTree.create_eq_ok hcreate
    obtain ⟨after, hwrite, hagree, hcontent⟩ :=
      Session.writeLines_spec place lines (FileTree.file?_put_self tree place .empty)
    have hall := ((FileTree.AgreeBut.refl place tree).put .empty).trans hagree
    rw [ByteArray.empty_append] at hcontent
    exact ⟨after, hwrite, FileTree.read_of_create hcreate hall hcontent⟩

/-- The listing of a label, escapes, an infinite number and a raw carriage return. -/
theorem listing_unambiguous_escapes :
    ∃ (p : Program) (lines : List String),
      ofText "a: .asciiz \"\\t\\n\"\n.double 1e999, -0.5\n\n li $t0, '\\t'\n.ascii \"\r\"".toList
        none 8 = .ok p ∧
      p.listing = .ok lines ∧
      lines = ["1\ta:", "1\t    .asciiz \"\\t\\n\"", "2\t    .double inf, -0.5",
        "4\t    li $t0, '\\t'", "5\t    .ascii \"\\r\""] ∧
      List.Forall₂ IsRecord p.items lines ∧
      decode (joinLines lines).toList =
        some (p.items.map fun entry => (entry.2, written entry.1.render)) ∧
      ∃ after, (Session.writeLines (.inside ["out"]) lines).run.run
          ((FileTree.ofPaths [] []).put (.inside ["out"]) .empty) = (.ok (), after) ∧
        after.read "out" = .ok (joinLines lines).toUTF8 := by
  obtain ⟨p, hp⟩ : ∃ p : Program, p = { items :=
      [(.label "a", 1), (.directive { name := ".asciiz", args := [.text "\t\n"] }, 1),
       (.directive { name := ".double", args :=
          [.float ⟨0x7ff0000000000000⟩, .float ⟨0xbfe0000000000000⟩] }, 2),
       (.instruction { mnemonic := "li", col := 2, operands :=
          [(.register ⟨8⟩, 5), (.character "\t", 10)] }, 4),
       (.directive { name := ".ascii", args := [.text "\r"] }, 5)] } := ⟨_, rfl⟩
  obtain ⟨lines, hlines⟩ : ∃ lines, lines = ["1\ta:", "1\t    .asciiz \"\\t\\n\"",
      "2\t    .double inf, -0.5", "4\t    li $t0, '\\t'", "5\t    .ascii \"\\r\""] := ⟨_, rfl⟩
  have hread : ofText
      "a: .asciiz \"\\t\\n\"\n.double 1e999, -0.5\n\n li $t0, '\\t'\n.ascii \"\r\"".toList
      none 8 = .ok p := eq_ok_of_toOption (by rw [hp]; decide +kernel)
  have hlisting : p.listing = .ok lines :=
    eq_ok_of_toOption (by rw [hp, hlines]; decide +kernel)
  have hcreate : (FileTree.ofPaths [] []).create "out" =
      .ok (.inside ["out"], (FileTree.ofPaths [] []).put (.inside ["out"]) .empty) := rfl
  obtain ⟨hrecords, -, -, hdecode, hfile⟩ := listing_unambiguous hread hlisting
  exact ⟨p, lines, hread, hlisting, hlines, hrecords, hdecode, hfile hcreate⟩

end Program

end MipsSource
