import MipsSource.Proofs.EditorColumns
import MipsSource.Proofs.Spacing

/-!
# The tab width

A tab outside literals becomes one or more spaces, and how many there are does not matter. So the
tab width changes columns only, if no tab lies inside a literal; inside a literal it changes what
the literal says.

* `squeeze_expandTabsFrom`: whatever the tab width, the expanded text is squeezed to the same.
* `Program.ofText_tabWidth`: so what is read is the same, columns aside.
* `Report.ofText_tabWidth_report`: the same for reports.
* `Report.ofText_tab_in_string`: a tab inside a string is read as spaces up to the next stop.
-/

set_option autoImplicit false

namespace MipsSource

namespace Text

/-- No tab of the text lies inside a literal, if it starts in the zone `z`. -/
def TabsOutside (z : Zone) (text : List Char) : Prop :=
  ∀ i, text[i]? = some '\t' → (z.after (text.take i)).inLiteral = false

theorem TabsOutside.head {z : Zone} {rest : List Char} (h : TabsOutside z ('\t' :: rest)) :
    z.inLiteral = false :=
  h 0 rfl

theorem TabsOutside.tail {z : Zone} {c : Char} {rest : List Char}
    (h : TabsOutside z (c :: rest)) : TabsOutside (z.step c) rest :=
  fun i hi => h (i + 1) hi

/-! ## Expanding and squeezing -/

theorem tabGap_pos {width : Nat} (hw : 1 ≤ width) (column : Nat) : 1 ≤ tabGap width column := by
  have hmod := Nat.mod_lt column hw
  rw [tabGap, if_neg (by omega)]
  omega

theorem expandTabsFrom_tab (width column : Nat) (rest : List Char) :
    expandTabsFrom width column ('\t' :: rest) =
      List.replicate (tabGap width column) ' ' ++
        expandTabsFrom width (column + tabGap width column) rest := by
  rw [expandTabsFrom, if_pos rfl, ← tabGap]

theorem expandTabsFrom_cons {c : Char} (hc : c ≠ '\t') (width column : Nat) (rest : List Char) :
    expandTabsFrom width column (c :: rest) =
      c :: expandTabsFrom width (columnAfter width column [c]) rest := by
  have happ := expandTabsFrom_append width column [c] rest
  rw [expandTabsFrom_singleton, if_neg hc] at happ
  exact happ

/-- The first character does not depend on the width. -/
theorem head?_expandTabsFrom {width : Nat} (hw : 1 ≤ width) (column : Nat) (text : List Char) :
    (expandTabsFrom width column text).head? =
      text.head?.map fun c => if c = '\t' then ' ' else c := by
  cases text with
  | nil => rfl
  | cons c rest =>
    by_cases hc : c = '\t'
    · subst hc
      obtain ⟨n, hn⟩ := Nat.exists_eq_add_of_le (tabGap_pos hw column)
      rw [expandTabsFrom_tab, hn, Nat.add_comm, List.replicate_succ]
      rfl
    · rw [expandTabsFrom_cons hc]
      simp [hc]

/-- Spaces outside literals are squeezed to one, or to none before a space. -/
theorem squeeze_replicate {z : Zone} (hz : z.inLiteral = false) {n : Nat} (hn : 1 ≤ n)
    (rest : List Char) :
    squeeze z (List.replicate n ' ' ++ rest) =
      if rest.head? = some ' ' then squeeze z rest else ' ' :: squeeze z rest := by
  have hstep : z.step ' ' = z := Zone.step_of_quiet hz (by decide) (by decide)
  induction n with
  | zero => cases hn
  | succ n ih =>
    rw [List.replicate_succ, List.cons_append, squeeze, hstep]
    cases n with
    | zero => simp [hz]
    | succ n =>
      rw [if_pos ⟨rfl, hz, by simp [List.replicate_succ]⟩]
      exact ih (by omega)

/-- **The tab width is squeezed away**, if no tab lies inside a literal. -/
theorem squeeze_expandTabsFrom {v w : Nat} (hv : 1 ≤ v) (hw : 1 ≤ w) {z : Zone} {text : List Char}
    (h : TabsOutside z text) (column column' : Nat) :
    squeeze z (expandTabsFrom v column text) = squeeze z (expandTabsFrom w column' text) := by
  induction text generalizing z column column' with
  | nil => rfl
  | cons c rest ih =>
    by_cases hc : c = '\t'
    · subst hc
      have hz := h.head
      have hrest := h.tail
      rw [Zone.step_of_quiet hz (by decide) (by decide)] at hrest
      rw [expandTabsFrom_tab, expandTabsFrom_tab, squeeze_replicate hz (tabGap_pos hv _),
        squeeze_replicate hz (tabGap_pos hw _), head?_expandTabsFrom hv, head?_expandTabsFrom hw,
        ih hrest]
    · rw [expandTabsFrom_cons hc, expandTabsFrom_cons hc, squeeze, squeeze,
        head?_expandTabsFrom hv, head?_expandTabsFrom hw, ih h.tail]

end Text

/-! ## What is read -/

/-- Faults that are equal but for columns: errors in the source text with the same cause on the same
line, or the same fault. -/
theorem Fault.eraseColumn_cases {f g : Fault} (h : f.eraseColumn = g.eraseColumn) :
    (∃ e e', f = .source e ∧ g = .source e' ∧ e.cause = e'.cause ∧ e.line = e'.line) ∨
      (f = g ∧ f.sourceError? = none) := by
  cases f with
  | source e =>
    cases g with
    | source e' =>
      have he : e.eraseColumn = e'.eraseColumn := Fault.source.inj h
      have hcause := congrArg SourceError.cause he
      have hline := congrArg SourceError.line he
      exact .inl ⟨e, e', rfl, rfl, hcause, hline⟩
    | _ => cases h
  | _ =>
    cases g with
    | source e' => cases h
    | _ => exact .inr ⟨h, rfl⟩

theorem Fault.eraseColumn_locate_file (fault : Fault) (file : Option String) :
    (fault.locate none none file).eraseColumn = fault.eraseColumn.locate none none file := by
  cases fault with
  | source e => simp [locate, eraseColumn, SourceError.eraseColumn, SourceError.locate]
  | _ => rfl

namespace Program

open MipsSource.Text

/-- Columns can be left out before the file is named. -/
theorem withoutColumns_ofText {w : Int} (hw : tabWidthOk w = true) (text : List Char)
    (file : Option String) :
    withoutColumns (ofText text file w) =
      match withoutColumns (read (.start (expandTabsFrom w.toNat 0 text))) with
      | .ok p => .ok p
      | .error f => .error (f.locate none none file) := by
  rw [ofText_of_tabWidth hw]
  cases read (.start (expandTabsFrom w.toNat 0 text)) with
  | ok p => rfl
  | error f => exact congrArg Except.error (f.eraseColumn_locate_file file)

theorem tabWidthOk_of_bounds {w : Int} (hw : 1 ≤ w ∧ w ≤ 2147483647) : tabWidthOk w = true := by
  simp [tabWidthOk]
  omega

/-- **The tab width changes columns only**, if no tab lies inside a literal. -/
theorem ofText_tabWidth {text : List Char} (h : TabsOutside .code text) {v w : Int}
    (hv : 1 ≤ v ∧ v ≤ 2147483647) (hw : 1 ≤ w ∧ w ≤ 2147483647) (file : Option String) :
    withoutColumns (ofText text file v) = withoutColumns (ofText text file w) := by
  have hsqueeze : squeeze .code (expandTabsFrom v.toNat 0 text) =
      squeeze .code (expandTabsFrom w.toNat 0 text) :=
    squeeze_expandTabsFrom (by omega) (by omega) h 0 0
  rw [withoutColumns_ofText (tabWidthOk_of_bounds hv),
    withoutColumns_ofText (tabWidthOk_of_bounds hw), read_squeeze, hsqueeze, ← read_squeeze]

end Program

namespace Report

open MipsSource.Text

/-- **The tab width changes columns only**, if no tab lies inside a literal: with any two widths
there are two programs that are equal but for their columns, or two diagnostics with the same kind
and message on the same line, or the text cannot be read for the same reason. -/
theorem ofText_tabWidth_report {text : List Char} (h : TabsOutside .code text) {v w : Int}
    (hv : 1 ≤ v ∧ v ≤ 2147483647) (hw : 1 ≤ w ∧ w ≤ 2147483647) (file : Option String) :
    (∃ p q, ofText text file v = .ok { program := some p, diagnostics := [] } ∧
        ofText text file w = .ok { program := some q, diagnostics := [] } ∧
        p.eraseColumns = q.eraseColumns) ∨
      (∃ d e, ofText text file v = .ok { program := none, diagnostics := [d] } ∧
        ofText text file w = .ok { program := none, diagnostics := [e] } ∧
        d.kind = e.kind ∧ d.message = e.message ∧ d.line = e.line) ∨
      ∃ f, ofText text file v = .error f ∧ ofText text file w = .error f := by
  have hsame := Program.ofText_tabWidth h hv hw file
  rw [ofText, ofText]
  cases hp : Program.ofText text file v with
  | ok p =>
    cases hq : Program.ofText text file w with
    | ok q =>
      rw [hp, hq] at hsame
      exact .inl ⟨p, q, rfl, rfl, Except.ok.inj hsame⟩
    | error g => rw [hp, hq] at hsame; cases hsame
  | error f =>
    cases hq : Program.ofText text file w with
    | ok q => rw [hp, hq] at hsame; cases hsame
    | error g =>
      rw [hp, hq] at hsame
      rcases Fault.eraseColumn_cases (Except.error.inj hsame) with
        ⟨e, e', rfl, rfl, hcause, hline⟩ | ⟨rfl, hf⟩
      · refine .inr (.inl ⟨e.diagnostic, e'.diagnostic, rfl, rfl, ?_, ?_, hline⟩)
        · simp only [SourceError.diagnostic, hcause]
        · simp only [SourceError.diagnostic, hcause]
      · refine .inr (.inr ⟨f, ?_⟩)
        cases f with
        | source e => cases hf
        | _ => exact ⟨rfl, rfl⟩

/-- Tabs between tokens, and before a comment with a mark. -/
theorem ofText_tabWidth_report_jump :
    TabsOutside .code "x:\tj x\t# it's".toList ∧
      ∃ p q, ofText "x:\tj x\t# it's".toList none 4 = .ok { program := some p, diagnostics := [] } ∧
        ofText "x:\tj x\t# it's".toList none 8 = .ok { program := some q, diagnostics := [] } ∧
        p ≠ q ∧ p.eraseColumns = q.eraseColumns := by
  have htabs : TabsOutside .code "x:\tj x\t# it's".toList := by
    have hall : ∀ i < 13, "x:\tj x\t# it's".toList[i]? = some '\t' →
        (Zone.code.after ("x:\tj x\t# it's".toList.take i)).inLiteral = false := by
      decide
    exact fun i hi => hall i (List.getElem?_eq_some_iff.1 hi).1 hi
  have hp : (ofText "x:\tj x\t# it's".toList none 4).toOption = some
      { program := some { items :=
          [(.label "x", 1),
           (.instruction { mnemonic := "j", col := 5, operands :=
              [(.symbol { name := "x" }, 7)] }, 1)] }
        diagnostics := [] } := by
    decide +kernel
  have hq : (ofText "x:\tj x\t# it's".toList none 8).toOption = some
      { program := some { items :=
          [(.label "x", 1),
           (.instruction { mnemonic := "j", col := 9, operands :=
              [(.symbol { name := "x" }, 11)] }, 1)] }
        diagnostics := [] } := by
    decide +kernel
  have hok := eq_ok_of_toOption hp
  have hok' := eq_ok_of_toOption hq
  refine ⟨htabs, _, _, hok, hok', by simp, ?_⟩
  rcases ofText_tabWidth_report htabs (v := 4) (w := 8) (by decide) (by decide) none with
    ⟨p, q, h1, h2, heq⟩ | ⟨d, e, h1, -⟩ | ⟨f, h1, -⟩
  · rw [hok] at h1
    rw [hok'] at h2
    cases h1
    cases h2
    exact heq
  · rw [hok] at h1
    cases h1
  · rw [hok] at h1
    cases h1

/-- **A tab inside a string is read as spaces**, up to the next stop: with two tab widths the string
has two values. -/
theorem ofText_tab_in_string :
    ∃ p q, ofText ".asciiz \"a\tb\"".toList none 4 =
        .ok { program := some p, diagnostics := [] } ∧
      ofText ".asciiz \"a\tb\"".toList none 8 =
        .ok { program := some q, diagnostics := [] } ∧
      p.eraseColumns ≠ q.eraseColumns := by
  have hp : (ofText ".asciiz \"a\tb\"".toList none 4).toOption = some
      { program := some { items :=
          [(.directive { name := ".asciiz", args := [.text "a  b"] }, 1)] }
        diagnostics := [] } := by
    decide +kernel
  have hq : (ofText ".asciiz \"a\tb\"".toList none 8).toOption = some
      { program := some { items :=
          [(.directive { name := ".asciiz", args := [.text "a      b"] }, 1)] }
        diagnostics := [] } := by
    decide +kernel
  exact ⟨_, _, eq_ok_of_toOption hp, eq_ok_of_toOption hq, by decide⟩

end Report

end MipsSource
