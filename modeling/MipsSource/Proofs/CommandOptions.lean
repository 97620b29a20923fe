import MipsSource.CommandLine.Command
import MipsSource.Proofs.OperandText

/-!
# Options on the command line

A command line is read from left to right, so that options at its end come on top of what was asked
for before them. Only the separator, after which there are no options, is in the way.

* `Draft.read_append`: reading goes on where it stopped.
* `Command.ofArguments_output`: an output at the end sets the output of the job.
* `Command.ofArguments_settings`: every tab width that can be written and every verbosity can be
  asked for.
-/

set_option autoImplicit false

namespace MipsSource

open Spelling in
/-- The text of a number is read as the number, if it has not too many digits. -/
theorem Numeral.readDecimal_text {i : Int} (h : isShowable i = true) :
    readDecimal (text i).toList = .ok i := by
  obtain ⟨hmark, hnegative⟩ := mem_signs (minus_mem_signs (decide (i < 0)))
  have hdigits := isDigits_toDigits i.natAbs
  have hname := nameChars_of_isDigits hdigits.isDigits
  rw [toList_text, readDecimal_literal hmark hname,
    hdigits.readDigits fun _ => (isShowable_iff i).1 h, ← hnegative, Except.map, signed_natAbs]

namespace CommandLine

/-- A text that is no switch, whatever the switches are. -/
def IsPlain (text : String) : Prop :=
  text.toList.head? ≠ some '-'

instance : DecidablePred IsPlain := fun _ => inferInstanceAs (Decidable (_ ≠ _))

/-! ## Arguments -/

theorem Argument.ofText_plain {text : String} (h : IsPlain text) :
    Argument.ofText text = .ok (.operand text) := by
  unfold Argument.ofText
  split
  · rename_i heq
    exact absurd (by rw [heq]; rfl) h
  · rename_i heq
    exact absurd (by rw [heq]; rfl) h
  · rename_i rest _ _ heq
    exact absurd (by rw [heq]; rfl) h
  · rfl

theorem ofDashed_ne_separator (text : List Char) : ofDashed text ≠ .ok .separator := by
  unfold ofDashed
  extract_lets uses
  clear_value uses
  split
  · split <;> simp
  · simp
  · simp

/-- Only two dashes are the separator. -/
theorem Argument.ofText_ne_separator {text : String} (h : text ≠ "--") :
    Argument.ofText text ≠ .ok .separator := by
  unfold Argument.ofText
  split
  · simp
  · rename_i heq
    exact absurd (String.toList_inj.1 heq) h
  · split
    · simp
    · split
      · split
        · simp
        · exact ofDashed_ne_separator _
      · exact ofDashed_ne_separator _
  · simp

theorem Argument.ofTexts_cons {text : String} {argument : Argument} (h : text ≠ "--")
    (ha : Argument.ofText text = .ok argument) (texts : List String) :
    Argument.ofTexts (text :: texts) = (Argument.ofTexts texts).map (argument :: ·) := by
  have hne := Argument.ofText_ne_separator h
  rw [ha] at hne
  rw [Argument.ofTexts, ha]
  cases argument with
  | separator => exact absurd rfl hne
  | operand _ => rfl
  | switch _ => rfl
  | unknown _ => rfl

theorem IsPlain.ne_separator {text : String} (h : IsPlain text) : text ≠ "--" := by
  intro he
  rw [he] at h
  exact absurd h (by decide)

theorem Argument.ofTexts_append {front back : List String} (h : "--" ∉ front)
    {first second : List Argument} (hfront : Argument.ofTexts front = .ok first)
    (hback : Argument.ofTexts back = .ok second) :
    Argument.ofTexts (front ++ back) = .ok (first ++ second) := by
  induction front generalizing first with
  | nil =>
    cases hfront
    exact hback
  | cons text front ih =>
    simp only [List.mem_cons, not_or] at h
    cases ha : Argument.ofText text with
    | error message =>
      rw [Argument.ofTexts, ha] at hfront
      cases hfront
    | ok argument =>
      rw [Argument.ofTexts_cons (Ne.symm h.1) ha] at hfront
      cases hrest : Argument.ofTexts front with
      | error message =>
        rw [hrest] at hfront
        cases hfront
      | ok arguments =>
        rw [hrest] at hfront
        cases hfront
        rw [List.cons_append, Argument.ofTexts_cons (Ne.symm h.1) ha, ih h.2 hrest]
        rfl

/-! ## Drafts -/

namespace Draft

/-- **Reading goes on where it stopped**, if a switch stands there. -/
theorem read_append {d after : Draft} {front : List Argument} (h : d.read front = .ok after)
    (use : SwitchUse) (back : List Argument) :
    d.read (front ++ .switch use :: back) = after.read (.switch use :: back) := by
  induction d, front using Draft.read.induct with
  | case1 d =>
    cases h
    rfl
  | case2 d text rest hsource ih =>
    rw [read, if_pos hsource] at h
    rw [List.cons_append, List.cons_append, read, if_pos hsource, ih h]
  | case3 d text rest hsource ih =>
    rw [read, if_neg hsource] at h
    rw [List.cons_append, List.cons_append, read, if_neg hsource, ih h]
  | case4 d text rest hrest ih =>
    rw [read.eq_3 d text rest hrest] at h
    have hmore : ∀ more, rest ++ .switch use :: back = .separator :: more → False := by
      intro more heq
      cases rest with
      | nil => cases heq
      | cons argument rest =>
        cases heq
        exact hrest rest rfl
    rw [List.cons_append, read.eq_3 d text _ hmore, ih h]
  | case5 d rest ih
  | case6 d text rest ih =>
    rw [read] at h
    rw [List.cons_append, read, ih h]
  | case7 d use' rest text hexpand =>
    rw [read, hexpand] at h
    cases h
  | case8 d use' e hexpand s value rest hwaiting ih =>
    rw [read, hexpand] at h
    simp only [hwaiting] at h
    rw [List.cons_append, List.cons_append, read, hexpand]
    simp only [hwaiting]
    cases hd : d.applyExpansion e (some value) with
    | error stop =>
      rw [hd] at h
      cases h
    | ok applied =>
      rw [hd] at h
      exact ih applied h
  | case9 d use' rest e hexpand s hwaiting hrest =>
    rw [read, hexpand] at h
    simp only [hwaiting] at h
    cases h
  | case10 d use' e hexpand rest hwaiting ih =>
    rw [read, hexpand] at h
    simp only [hwaiting] at h
    rw [List.cons_append, read, hexpand]
    simp only [hwaiting]
    cases hd : d.applyExpansion e none with
    | error stop =>
      rw [hd] at h
      cases h
    | ok applied =>
      rw [hd] at h
      exact ih applied h

theorem command_eq_list {d : Draft} {job : Job} (h : d.command = .list job)
    (output : Option String) :
    { d with output := output }.command = .list { job with output := output } := by
  unfold command at h ⊢
  split at h
  · cases h
  · rename_i source hsource
    split at h
    · rename_i hextra
      cases h
      simp only [hsource, if_pos hextra]
    · cases h

end Draft

/-- **An output at the end of a command line** is the output of its job. -/
theorem Command.ofArguments_output {arguments : List String} {job : Job} {out : String}
    (h : Command.ofArguments arguments = .list job) (hsep : "--" ∉ arguments)
    (hout : IsPlain out) :
    Command.ofArguments (arguments ++ ["-o", out]) = .list { job with output := some out } := by
  have hback : Argument.ofTexts ["-o", out] =
      .ok [.switch { switch := .output, isShort := true }, .operand out] := by
    have hswitch : Argument.ofText "-o" = .ok (.switch { switch := .output, isShort := true }) :=
      rfl
    rw [Argument.ofTexts_cons (by decide) hswitch,
      Argument.ofTexts_cons hout.ne_separator (Argument.ofText_plain hout)]
    rfl
  rw [ofArguments] at h
  cases hfront : Argument.ofTexts arguments with
  | error text =>
    rw [hfront] at h
    cases h
  | ok first =>
    rw [hfront] at h
    cases hread : Draft.read {} first with
    | error stop =>
      simp only [hread] at h
      cases stop <;> cases h
    | ok d =>
      simp only [hread] at h
      have hlast : d.read [.switch { switch := .output, isShort := true }, .operand out] =
          .ok { d with output := some out } := rfl
      rw [ofArguments, Argument.ofTexts_append hsep hfront hback]
      simp only [Draft.read_append hread, hlast]
      exact Draft.command_eq_list h (some out)

/-! ## Tab widths and verbosities -/

theorem Switch.ofSpelling?_of_equals {text : String} (h : '=' ∈ text.toList) :
    ofSpelling? text = none := by
  have hall : ∀ entry ∈ spellings, '=' ∉ entry.1.toList := by decide
  rw [ofSpelling?, List.lookup_eq_none_iff]
  intro entry hentry
  rw [bne_iff_ne]
  intro he
  exact hall entry hentry (he ▸ h)

theorem splitEquals_append {spelling : List Char} (h : '=' ∉ spelling) (value : List Char) :
    splitEquals (spelling ++ '=' :: value) = (spelling, some value) := by
  have hall : ∀ c ∈ spelling, decide (c ≠ '=') = true := fun c hc =>
    decide_eq_true fun he => h (he ▸ hc)
  rw [splitEquals, List.dropWhile_append_of_pos hall, List.takeWhile_append_of_pos hall]
  simp

/-- The option for a tab width. -/
def tabWidthOption (width : Int) : String :=
  "--tab-width=" ++ Numeral.text width

/-- How the option for a tab width is understood. -/
def tabWidthUse (width : Int) : SwitchUse where
  switch := .tabWidth
  isShort := false
  value := some (Numeral.text width).toList

theorem Argument.ofText_tabWidthOption (width : Int) :
    Argument.ofText (tabWidthOption width) = .ok (.switch (tabWidthUse width)) := by
  have htext : (tabWidthOption width).toList =
      "--tab-width".toList ++ '=' :: (Numeral.text width).toList := by
    rw [tabWidthOption, String.toList_append]
    rfl
  have hsplit : splitEquals (tabWidthOption width).toList =
      ("--tab-width".toList, some (Numeral.text width).toList) := by
    rw [htext]
    exact splitEquals_append (by decide) _
  have hnone : Switch.ofSpelling? (tabWidthOption width) = none :=
    Switch.ofSpelling?_of_equals (by simp [htext])
  unfold Argument.ofText
  split
  · rename_i heq
    rw [htext] at heq
    cases heq
  · rename_i heq
    rw [htext] at heq
    cases heq
  · rename_i rest _ _ heq
    rw [hnone, ← heq, hsplit]
    rfl
  · rename_i hrest
    exact absurd htext (hrest _)

/-- The argument of a single switch `-v`. -/
def verboseArgument : Argument :=
  .switch { switch := .verbose, isShort := true }

theorem Argument.ofTexts_verbose (n : Nat) :
    Argument.ofTexts (List.replicate n "-v") = .ok (List.replicate n verboseArgument) := by
  induction n with
  | zero => rfl
  | succ n ih =>
    have hswitch : Argument.ofText "-v" = .ok verboseArgument := rfl
    rw [List.replicate_succ, Argument.ofTexts_cons (by decide) hswitch, ih]
    rfl

theorem Draft.read_verbose (d : Draft) (n : Nat) :
    d.read (List.replicate n verboseArgument) = .ok { d with verbosity := d.verbosity + n } := by
  induction n generalizing d with
  | zero => rfl
  | succ n ih =>
    have hstep : d.read (List.replicate (n + 1) verboseArgument) =
        { d with verbosity := d.verbosity + 1 }.read (List.replicate n verboseArgument) := rfl
    rw [hstep, ih]
    simp only [Nat.add_assoc, Nat.add_comm 1 n]

theorem Draft.read_tabWidth (d : Draft) {width : Int} (hw : Numeral.isShowable width = true)
    (arguments : List Argument) :
    d.read (.switch (tabWidthUse width) :: arguments) =
      { d with tabWidth := some width }.read arguments := by
  have hread := Numeral.readDecimal_text hw
  have hvalue : ownValue (Numeral.text width).toList = some (Numeral.text width) := by
    have hne : (Numeral.text width).toList ≠ ['-', '-'] := by
      intro he
      rw [he] at hread
      cases hread
    rw [ownValue, if_neg hne, String.ofList_toList]
  have hexpand : (tabWidthUse width).expand =
      .ok { done := [(.tabWidth, some (Numeral.text width))] } := by
    rw [← hvalue]
    show expandValue .tabWidth false (Numeral.text width).toList = _
    rw [expandValue.eq_def]
    rfl
  have happly : d.applyExpansion { done := [(.tabWidth, some (Numeral.text width))] } none =
      .ok { d with tabWidth := some width } := by
    simp [applyExpansion, Draft.apply, hread]
  rw [read, hexpand]
  simp only [happly]
  rfl

/-- The options for a tab width and a verbosity. -/
def settings (width : Int) (verbosity : Nat) : List String :=
  tabWidthOption width :: List.replicate verbosity "-v"

/-- **Every tab width that can be written and every verbosity** can be asked for. -/
theorem Command.ofArguments_settings {source : String} (hs : IsPlain source) {width : Int}
    (hw : Numeral.isShowable width = true) (verbosity : Nat) :
    Command.ofArguments (source :: settings width verbosity) =
      .list { source := source, tabWidth := some width, verbosity := verbosity } := by
  have hwidth := Argument.ofText_tabWidthOption width
  have hne : tabWidthOption width ≠ "--" := by
    intro he
    rw [he] at hwidth
    cases hwidth
  have hread : Draft.read {} (.operand source :: .switch (tabWidthUse width) ::
      List.replicate verbosity verboseArgument) =
        .ok { source := some source, tabWidth := some width, verbosity := 0 + verbosity } := by
    rw [Draft.read.eq_3 _ _ _ (by simp), Draft.read_tabWidth _ hw, Draft.read_verbose]
    rfl
  rw [ofArguments, settings, Argument.ofTexts_cons hs.ne_separator (Argument.ofText_plain hs),
    Argument.ofTexts_cons hne hwidth, Argument.ofTexts_verbose]
  simp only [Except.map, hread, Draft.command, Nat.zero_add]
  rfl

end CommandLine

end MipsSource
