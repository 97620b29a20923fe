import MipsSource.Proofs.Place
import MipsSource.Text.TabStops

/-!
# Columns on the screen

An editor counts the columns of a line from one, and a tab moves on to the next tab stop. Expanding
the tabs of a text makes these the columns of a cursor:

* `expandTabsFrom_append`: a text is expanded piece by piece; `columnAfter` is where a piece ends.
* `nextStop_spec`: the stop after a column is the least one beyond it.
* `columnAfter_editorColumn`: expanding counts as an editor does, except right after a carriage
  return.
* `expandTabs_editorColumn`: every character but a tab keeps its line and its column on the screen.
-/

set_option autoImplicit false

namespace MipsSource.Text

/-! ## Expanding in pieces -/

/-- How far a tab goes in a line that is `column` characters long. -/
def tabGap (width column : Nat) : Nat :=
  if width = 0 then 0 else width - column % width

/-- How many characters into its line a text ends that starts `column` characters into its line,
once its tabs are expanded. -/
def columnAfter (width : Nat) : Nat → List Char → Nat
  | column, [] => column
  | column, c :: rest =>
    columnAfter width
      (if c = '\t' then column + tabGap width column
        else if c = '\n' ∨ c = '\r' then 0 else column + 1) rest

/-- A text is expanded piece by piece. -/
theorem expandTabsFrom_append (width column : Nat) (a b : List Char) :
    expandTabsFrom width column (a ++ b) =
      expandTabsFrom width column a ++ expandTabsFrom width (columnAfter width column a) b := by
  induction a generalizing column with
  | nil => rfl
  | cons c a ih =>
    simp only [List.cons_append, expandTabsFrom, columnAfter, tabGap, ih]
    split
    · rw [List.append_assoc]
    · split <;> rfl

theorem columnAfter_concat (width column : Nat) (a : List Char) (c : Char) :
    columnAfter width column (a ++ [c]) =
      if c = '\t' then columnAfter width column a + tabGap width (columnAfter width column a)
      else if c = '\n' ∨ c = '\r' then 0 else columnAfter width column a + 1 := by
  induction a generalizing column with
  | nil => rfl
  | cons d a ih => simp only [List.cons_append, columnAfter, ih]

/-- What a single character becomes. -/
theorem expandTabsFrom_singleton (width column : Nat) (c : Char) :
    expandTabsFrom width column [c] =
      if c = '\t' then List.replicate (tabGap width column) ' ' else [c] := by
  simp only [expandTabsFrom, tabGap, List.append_nil]
  split
  · rfl
  · split <;> rfl

/-- Expanding tabs keeps the lines. -/
theorem count_newline_expandTabsFrom (width column : Nat) (text : List Char) :
    (expandTabsFrom width column text).count '\n' = text.count '\n' := by
  induction text generalizing column with
  | nil => rfl
  | cons c text ih =>
    unfold expandTabsFrom
    split
    · rename_i hc
      simp [hc, ih, List.count_append, List.count_replicate]
    · split
      · rw [List.count_cons, List.count_cons, ih]
      · rw [List.count_cons, List.count_cons, ih]

/-! ## What an editor shows -/

/-- The characters of a text after its last newline. -/
def lastLine (text : List Char) : List Char :=
  (text.reverse.takeWhile (· ≠ '\n')).reverse

/-- The column that a tab in column `col` leads to: the next one of the form one and a multiple of
the width. -/
def nextStop (width col : Nat) : Nat :=
  1 + ((col - 1) / width + 1) * width

/-- The column that an editor shows for an offset of a text: counted along its line from one, where
a tab moves on to the next stop and every other character counts one. -/
def editorColumn (width : Nat) (text : List Char) (offset : Nat) : Nat :=
  (lastLine (text.take offset)).foldl
    (fun col c => if c = '\t' then nextStop width col else col + 1) 1

/-- **The stop after a column** is the least one beyond it. -/
theorem nextStop_spec {width col : Nat} (hw : 1 ≤ width) (hcol : 1 ≤ col) :
    col < nextStop width col ∧
      ∀ k, col < 1 + k * width → nextStop width col ≤ 1 + k * width := by
  have hdiv := Nat.div_add_mod (col - 1) width
  have hmod := Nat.mod_lt (col - 1) hw
  rw [Nat.mul_comm] at hdiv
  constructor
  · rw [nextStop, Nat.succ_mul]
    omega
  · intro k hk
    have hlt : (col - 1) / width < k := Nat.div_lt_of_lt_mul (by rw [Nat.mul_comm]; omega)
    exact Nat.add_le_add_left (Nat.mul_le_mul_right width hlt) 1

/-- Expanding reaches the same stop, counted from zero. -/
theorem nextStop_succ {width column : Nat} (hw : 1 ≤ width) :
    nextStop width (column + 1) = column + tabGap width column + 1 := by
  have hdiv := Nat.div_add_mod column width
  have hmod := Nat.mod_lt column hw
  rw [Nat.mul_comm] at hdiv
  rw [nextStop, tabGap, if_neg (by omega), Nat.succ_mul, Nat.add_sub_cancel]
  omega

theorem lastLine_concat_newline (a : List Char) : lastLine (a ++ ['\n']) = [] := by
  simp [lastLine]

theorem lastLine_append {b : List Char} (h : '\n' ∉ b) (a : List Char) :
    lastLine (a ++ b) = lastLine a ++ b := by
  have hb : ∀ c ∈ b.reverse, decide (c ≠ '\n') = true := by
    intro c hc
    refine decide_eq_true fun he => h ?_
    rw [← he]
    exact List.mem_reverse.1 hc
  rw [lastLine, List.reverse_append, List.takeWhile_append_of_pos hb, List.reverse_append,
    List.reverse_reverse, lastLine]

theorem colAt_eq_lastLine (text : List Char) (k : Nat) :
    colAt text k = 1 + ((lastLine (text.take k)).length : Nat) := by
  rw [colAt, lastLine, List.length_reverse]

section
variable {width : Nat} {text rest : List Char} {i : Nat} {c : Char}

theorem editorColumn_newline (h : text.drop i = '\n' :: rest) :
    editorColumn width text (i + 1) = 1 := by
  rw [editorColumn, take_succ_of_drop h, lastLine_concat_newline]
  rfl

theorem editorColumn_succ (h : text.drop i = c :: rest) (hc : c ≠ '\n') :
    editorColumn width text (i + 1) =
      if c = '\t' then nextStop width (editorColumn width text i)
      else editorColumn width text i + 1 := by
  rw [editorColumn, take_succ_of_drop h, lastLine_append (by simpa using hc.symm),
    List.foldl_append]
  rfl

end

/-! ## Images -/

/-- Where the character at an offset goes: after all that the text before it becomes. -/
def imageOffset (width : Nat) (text : List Char) (offset : Nat) : Nat :=
  (expandTabsFrom width 0 (text.take offset)).length

theorem drop_of_getElem? {text : List Char} {i : Nat} {c : Char} (h : text[i]? = some c) :
    text.drop i = c :: text.drop (i + 1) := by
  obtain ⟨hi, rfl⟩ := List.getElem?_eq_some_iff.1 h
  exact List.drop_eq_getElem_cons hi

theorem expandTabsFrom_take_drop (width : Nat) (text : List Char) (i : Nat) :
    expandTabsFrom width 0 text = expandTabsFrom width 0 (text.take i) ++
      expandTabsFrom width (columnAfter width 0 (text.take i)) (text.drop i) := by
  rw [← expandTabsFrom_append, List.take_append_drop]

theorem take_imageOffset (width : Nat) (text : List Char) (i : Nat) :
    (expandTabsFrom width 0 text).take (imageOffset width text i) =
      expandTabsFrom width 0 (text.take i) := by
  rw [expandTabsFrom_take_drop width text i, imageOffset, List.take_left]

theorem drop_imageOffset (width : Nat) (text : List Char) (i : Nat) :
    (expandTabsFrom width 0 text).drop (imageOffset width text i) =
      expandTabsFrom width (columnAfter width 0 (text.take i)) (text.drop i) := by
  rw [expandTabsFrom_take_drop width text i, imageOffset, List.drop_left]

theorem imageOffset_le (width : Nat) (text : List Char) (i : Nat) :
    imageOffset width text i ≤ (expandTabsFrom width 0 text).length := by
  rw [expandTabsFrom_take_drop width text i, imageOffset, List.length_append]
  omega

theorem imageOffset_mono (width : Nat) (text : List Char) {i j : Nat} (h : i ≤ j) :
    imageOffset width text i ≤ imageOffset width text j := by
  obtain ⟨n, rfl⟩ := Nat.exists_eq_add_of_le h
  rw [imageOffset, imageOffset, List.take_add, expandTabsFrom_append, List.length_append]
  omega

section
variable {width : Nat} {text : List Char} {i : Nat} {c : Char}

/-- One more character before an offset. -/
theorem expandTabsFrom_take_succ {rest : List Char} (h : text.drop i = c :: rest) :
    expandTabsFrom width 0 (text.take (i + 1)) = expandTabsFrom width 0 (text.take i) ++
      if c = '\t' then List.replicate (tabGap width (columnAfter width 0 (text.take i))) ' '
      else [c] := by
  rw [take_succ_of_drop h, expandTabsFrom_append, expandTabsFrom_singleton]

/-- The image of a character is the character. -/
theorem rest_imageOffset (h : text[i]? = some c) (hc : c ≠ '\t') :
    ((expandTabsFrom width 0 text).drop (imageOffset width text i)).head? = some c := by
  rw [drop_imageOffset, drop_of_getElem? h, expandTabsFrom, if_neg hc]
  split <;> rfl

/-- The characters keep their order. -/
theorem imageOffset_lt (h : text[i]? = some c) (hc : c ≠ '\t') {j : Nat} (hij : i < j) :
    imageOffset width text i < imageOffset width text j := by
  have hsucc : imageOffset width text (i + 1) = imageOffset width text i + 1 := by
    rw [imageOffset, expandTabsFrom_take_succ (drop_of_getElem? h), if_neg hc, List.length_append]
    rfl
  have hmono : imageOffset width text (i + 1) ≤ imageOffset width text j :=
    imageOffset_mono width text hij
  omega

/-- What is not the image of a character is a space. -/
theorem getElem?_expandTabsFrom_take {n k : Nat}
    (h : (expandTabsFrom width 0 (text.take n))[k]? = some c) :
    c = ' ' ∨ ∃ i, imageOffset width text i = k ∧ text[i]? = some c ∧ c ≠ '\t' := by
  induction n with
  | zero => simp [expandTabsFrom] at h
  | succ n ih =>
    cases hd : text.drop n with
    | nil =>
      have hlen := List.drop_eq_nil_iff.1 hd
      rw [List.take_of_length_le (by omega), ← List.take_of_length_le hlen] at h
      exact ih h
    | cons x rest =>
      rw [expandTabsFrom_take_succ hd] at h
      by_cases hk : k < (expandTabsFrom width 0 (text.take n)).length
      · rw [List.getElem?_append_left hk] at h
        exact ih h
      · rw [List.getElem?_append_right (by omega)] at h
        split at h
        · -- a tab becomes spaces
          have hmem := List.mem_of_getElem? h
          exact .inl (List.eq_of_mem_replicate hmem)
        · rename_i hx
          rw [List.getElem?_singleton] at h
          split at h
          · cases h
            refine .inr ⟨n, by rw [imageOffset]; omega, ?_, hx⟩
            rw [← List.head?_drop, hd]
            rfl
          · cases h

end

/-- **Expanding counts as an editor does.** The expansion of the text before an offset ends in the
column that an editor shows, and there the next tab stop is looked for, unless the line ends. -/
theorem columnAfter_editorColumn {width : Nat} {text : List Char} (hw : 1 ≤ width)
    (hcr : ∀ i, text[i]? = some '\r' → text[i + 1]? = some '\n') {i : Nat} (hi : i ≤ text.length) :
    (lastLine (expandTabsFrom width 0 (text.take i))).length + 1 = editorColumn width text i ∧
      (text[i]? ≠ some '\n' →
        columnAfter width 0 (text.take i) + 1 = editorColumn width text i) := by
  induction i with
  | zero => exact ⟨rfl, fun _ => rfl⟩
  | succ i ih =>
    obtain ⟨hcol, htab⟩ := ih (by omega)
    obtain ⟨c, hc⟩ : ∃ c, text[i]? = some c := ⟨_, List.getElem?_eq_getElem (by omega)⟩
    have hd := drop_of_getElem? hc
    rw [expandTabsFrom_take_succ hd, take_succ_of_drop hd, columnAfter_concat]
    by_cases hn : c = '\n'
    · subst hn
      rw [editorColumn_newline hd, if_neg (by decide), lastLine_concat_newline]
      exact ⟨rfl, fun _ => rfl⟩
    · -- both counts are the same before the character
      rw [hc] at htab
      have htab := htab (by simpa using hn)
      rw [editorColumn_succ hd hn]
      by_cases ht : c = '\t'
      · simp only [ht, if_true]
        rw [lastLine_append (by simp), List.length_append, List.length_replicate, ← htab,
          nextStop_succ hw]
        omega
      · simp only [ht, if_false]
        rw [lastLine_append (by simpa using Ne.symm hn), List.length_append]
        refine ⟨by simp; omega, fun hnext => ?_⟩
        have hr : ¬ (c = '\n' ∨ c = '\r') := by
          rintro (rfl | rfl)
          · exact hn rfl
          · exact hnext (hcr i hc)
        rw [if_neg hr]
        omega

/-- **Columns are editor columns.** If every carriage return stands before a newline, a text with
its tabs expanded has no tab left and all other characters in order, with spaces between them; and
moving on to the image of a character leads to the line of the character and to the column that an
editor shows for it. -/
theorem expandTabs_editorColumn {text : List Char}
    (hcr : ∀ i, text[i]? = some '\r' → text[i + 1]? = some '\n') {w : Int} (hw : 1 ≤ w)
    (hmax : w ≤ 2147483647) :
    ∃ expanded, expandTabs w text = .ok expanded ∧ '\t' ∉ expanded ∧
      (∀ i j c, text[i]? = some c → c ≠ '\t' → i < j →
        imageOffset w.toNat text i < imageOffset w.toNat text j) ∧
      (∀ k c, expanded[k]? = some c →
        c = ' ' ∨ ∃ i, imageOffset w.toNat text i = k ∧ text[i]? = some c ∧ c ≠ '\t') ∧
      ∀ i c, text[i]? = some c → c ≠ '\t' →
        let image := (Cursor.start expanded).advance (imageOffset w.toNat text i)
        image.offset = imageOffset w.toNat text i ∧ image.rest.head? = some c ∧
          image.line = lineAt text i ∧ image.col = editorColumn w.toNat text i := by
  have hok : tabWidthOk w = true := by simp [tabWidthOk]; omega
  have hwidth : 1 ≤ w.toNat := by omega
  refine ⟨expandTabsFrom w.toNat 0 text, by rw [expandTabs, if_pos hok],
    expandTabsFrom_no_tab _ _ _, fun i j c hi hc hij => imageOffset_lt hi hc hij, ?_, ?_⟩
  · intro k c hk
    rw [← List.take_of_length_le (Nat.le_refl text.length)] at hk
    exact getElem?_expandTabsFrom_take hk
  · intro i c hi hc
    have hlen := (List.getElem?_eq_some_iff.1 hi).1
    have hcol := (columnAfter_editorColumn hwidth hcr (Nat.le_of_lt hlen)).1
    simp only
    rw [Cursor.start_advance (imageOffset_le _ _ _)]
    refine ⟨rfl, rest_imageOffset hi hc, ?_, ?_⟩
    · rw [Cursor.atOffset_line, lineAt, take_imageOffset, count_newline_expandTabsFrom, lineAt]
    · rw [Cursor.atOffset_col, colAt_eq_lastLine, take_imageOffset, ← hcol]
      omega

/-- A tab between two characters, and one at the start of the second line. -/
theorem expandTabs_editorColumn_lines :
    (∀ i, "a\tb\r\n\tc".toList[i]? = some '\r' → "a\tb\r\n\tc".toList[i + 1]? = some '\n') ∧
      expandTabs 4 "a\tb\r\n\tc".toList = .ok "a   b\r\n    c".toList ∧
      ((Cursor.start "a   b\r\n    c".toList).advance 11).line = 2 ∧
      ((Cursor.start "a   b\r\n    c".toList).advance 11).col = 5 := by
  have hcr : ∀ i, "a\tb\r\n\tc".toList[i]? = some '\r' →
      "a\tb\r\n\tc".toList[i + 1]? = some '\n' := by
    have hall : ∀ i < 7, "a\tb\r\n\tc".toList[i]? = some '\r' →
        "a\tb\r\n\tc".toList[i + 1]? = some '\n' := by decide
    exact fun i hi => hall i (List.getElem?_eq_some_iff.1 hi).1 hi
  obtain ⟨expanded, hok, -, -, -, hplace⟩ :=
    expandTabs_editorColumn (w := 4) hcr (by decide) (by decide)
  have hexp : expandTabs 4 "a\tb\r\n\tc".toList = .ok "a   b\r\n    c".toList := by rfl
  rw [hexp] at hok
  obtain rfl := Except.ok.inj hok
  obtain ⟨-, -, hline, hcol⟩ := hplace 6 'c' (by decide) (by decide)
  have himage : imageOffset (4 : Int).toNat "a\tb\r\n\tc".toList 6 = 11 := by decide
  rw [himage] at hline hcol
  refine ⟨hcr, hexp, hline.trans (by decide), hcol.trans (by decide)⟩

end MipsSource.Text
