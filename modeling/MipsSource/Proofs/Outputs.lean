import MipsSource.CommandLine.Run
import MipsSource.Proofs.CommandOptions

/-!
# Where a listing goes

The same job without and with an output file reads the same program, so that both runs end alike: at
a fault, with a diagnostic, or with the same listing, on standard output or in the file. The file is
opened only when the listing is there, and so it is not touched by a run without one.

* `FileTree.AgreeBut`: nothing is different but the file at one place.
* `Session.writeLines_spec`: what the file holds once its lines are written.
* `Endings`: how the two runs end; `Job.endings`: they always end in one of these ways.
* `run_outputs`: what this means for exit codes, standard output, standard error and the file.
-/

set_option autoImplicit false

namespace MipsSource.CommandLine

/-! ## Files -/

namespace FileTree

/-- Both trees have the same directories, and the same files but at one place. -/
structure AgreeBut (place : Place) (t t' : FileTree) : Prop where
  directories : t'.directories = t.directories
  files : ∀ other, other ≠ place → t'.file? other = t.file? other

variable {place : Place} {t t' : FileTree}

theorem AgreeBut.refl (place : Place) (t : FileTree) : AgreeBut place t t :=
  ⟨rfl, fun _ _ => rfl⟩

theorem AgreeBut.trans {t'' : FileTree} (h : AgreeBut place t t') (h' : AgreeBut place t' t'') :
    AgreeBut place t t'' where
  directories := h'.directories.trans h.directories
  files other hother := (h'.files other hother).trans (h.files other hother)

theorem AgreeBut.put (h : AgreeBut place t t') (content : ByteArray) :
    AgreeBut place t (t'.put place content) where
  directories := h.directories
  files other hother := by rw [file?_put_of_ne hother, h.files other hother]

theorem AgreeBut.isDirectory (h : AgreeBut place t t') (p : Place) :
    t'.isDirectory p = t.isDirectory p := by
  rw [FileTree.isDirectory, FileTree.isDirectory, h.directories]

/-- A path leads where it led before: only directories matter on the way. -/
theorem AgreeBut.follow (h : AgreeBut place t t') {directory p : Place} {names : List String}
    (hp : t.follow directory names = .ok p) : t'.follow directory names = .ok p := by
  induction names generalizing directory with
  | nil => exact hp
  | cons name rest ih =>
    simp only [FileTree.follow, h.isDirectory] at hp ⊢
    split at hp
    · cases hp
    · split at hp
      · rename_i hlen hnext
        rw [if_neg hlen, if_pos hnext]
        exact ih hp
      · split at hp <;> cases hp

/-- A path that can be opened for writing leads to a place that is no directory. -/
theorem create_eq_ok {path : String} {opened : FileTree} (h : t.create path = .ok (place, opened)) :
    ∃ names, checkedNames path = .ok names ∧ endsInSlash path = false ∧
      t.follow (start path) names = .ok place ∧ t.isDirectory place = false ∧
      opened = t.put place .empty := by
  unfold create at h
  cases hnames : checkedNames path with
  | error e =>
    rw [hnames] at h
    cases h
  | ok names =>
    rw [hnames] at h
    simp only [bind, Except.bind] at h
    split at h
    · split at h <;> cases h
    · rename_i hslash
      split at h
      · cases h
      · rename_i found hfollow
        split at h
        · cases h
        · rename_i hdirectory
          cases h
          exact ⟨names, rfl, by simpa using hslash, hfollow, by simpa using hdirectory, rfl⟩

/-- Reading the path of a file that was written gives its content. -/
theorem read_of_create {path : String} {opened : FileTree}
    (h : t.create path = .ok (place, opened)) (ht : AgreeBut place t t') {content : ByteArray}
    (hcontent : t'.file? place = some content) : t'.read path = .ok content := by
  obtain ⟨names, hnames, hslash, hfollow, hdirectory, -⟩ := create_eq_ok h
  unfold read
  rw [hnames]
  simp only [bind, Except.bind, ht.follow hfollow, ht.isDirectory, hdirectory, hcontent, hslash,
    Bool.false_eq_true, if_false]
  rfl

end FileTree

/-! ## Steps -/

theorem Session.run_bind {α β : Type} {x : Session α} {next : α → Session β} {tree after : FileTree}
    {value : α} (h : x.run.run tree = (.ok value, after)) :
    (x >>= next).run.run tree = (next value).run.run after := by
  rw [ExceptT.run_bind, StateT.run_bind, h]
  rfl

theorem Session.run_readFile {path : String} (h : FileTree.pathOk path = true) (tree : FileTree) :
    (readFile path).run.run tree = (.ok (tree.read path), tree) := by
  have hcheck : checkPath path = .ok () := if_pos h
  rw [readFile, hcheck]
  rfl

theorem Session.run_create {path : String} (h : FileTree.pathOk path = true) {place : Place}
    {tree opened : FileTree} (hcreate : tree.create path = .ok (place, opened)) :
    (create path).run.run tree = (.ok (.ok place), opened) := by
  have hcheck : checkPath path = .ok () := if_pos h
  have hget : (get : Session FileTree).run.run tree = (.ok tree, tree) := rfl
  have hfirst : (liftM (Except.ok () : Except Fault Unit) : Session Unit).run.run tree =
      (.ok (), tree) := rfl
  rw [create, hcheck]
  refine (Session.run_bind hfirst).trans ?_
  rw [Session.run_bind hget, hcreate]
  rfl

theorem joinLines_cons (line : String) (lines : List String) :
    joinLines (line :: lines) = line ++ "\n" ++ joinLines lines := by
  rw [joinLines, joinLines, List.map_cons, String.join_cons]

theorem joinLines_append (lines more : List String) :
    joinLines (lines ++ more) = joinLines lines ++ joinLines more := by
  rw [joinLines, joinLines, joinLines, List.map_append, String.join_append]

namespace Session

/-- **Lines are written one after the other**, to the end of the file. -/
theorem writeLines_spec (place : Place) (lines : List String) {tree : FileTree}
    {content : ByteArray} (h : tree.file? place = some content) :
    ∃ after, (writeLines place lines).run.run tree = (.ok (), after) ∧
      FileTree.AgreeBut place tree after ∧
      after.file? place = some (content ++ (joinLines lines).toUTF8) := by
  induction lines generalizing tree content with
  | nil =>
    have hempty : (joinLines []).toUTF8 = .empty := rfl
    exact ⟨tree, rfl, .refl place tree, by rw [hempty, ByteArray.append_empty, h]⟩
  | cons line lines ih =>
    have hfile := FileTree.file?_put_self tree place (content ++ (line ++ "\n").toUTF8)
    obtain ⟨after, hrun, hagree, hcontent⟩ := ih hfile
    have hstep : (writeLines place (line :: lines)).run.run tree =
        (writeLines place lines).run.run (tree.append place (line ++ "\n").toUTF8) := rfl
    rw [FileTree.append, h, Option.getD_some] at hstep
    refine ⟨after, hstep.trans hrun, ?_, ?_⟩
    · exact ((FileTree.AgreeBut.refl place tree).put _).trans hagree
    · rw [hcontent, joinLines_cons]
      simp only [String.toUTF8_eq_toByteArray, String.toByteArray_append, ByteArray.append_assoc]

end Session

/-- A source text that was encoded is decoded again. -/
theorem decodeSource_toUTF8 (content : String) :
    decodeSource content.toUTF8 = .ok (unifyNewlines content.toList) := by
  have hdecode : String.fromUTF8? content.toUTF8 = some content := dif_pos content.isValidUTF8
  rw [decodeSource, hdecode]

/-! ## Jobs -/

namespace Job

variable {job : Job} {tree : FileTree} {content : ByteArray}
  (hpath : FileTree.pathOk job.source = true) (hread : tree.read job.source = .ok content)
include hpath hread

/-- What a job does once its source was read. -/
theorem run_eq : job.run.run.run tree = (do
    match ← (job.process content : Except Fault Plan) with
    | .done output => return output
    | .write path lines log success =>
      match ← Session.create path with
      | .error e => return afterWrite path log success (.error e)
      | .ok place =>
        Session.writeLines place lines
        return afterWrite path log success (.ok ()) : Session Output).run.run tree := by
  have hsource := Session.run_readFile hpath tree
  rw [hread] at hsource
  rw [Job.run, Session.run_bind hsource]
  rfl

theorem run_of_fault {fault : Fault} (h : job.process content = .error fault) :
    job.run.run.run tree = (.error fault, tree) := by
  rw [run_eq hpath hread, h]
  rfl

theorem run_of_done {output : Output} (h : job.process content = .ok (.done output)) :
    job.run.run.run tree = (.ok output, tree) := by
  rw [run_eq hpath hread, h]
  rfl

theorem run_of_write {path log success : String} {lines : List String}
    (h : job.process content = .ok (.write path lines log success))
    (hout : FileTree.pathOk path = true) {place : Place} {opened : FileTree}
    (hcreate : tree.create path = .ok (place, opened)) :
    ∃ after, job.run.run.run tree = (.ok { stderr := log ++ success }, after) ∧
      FileTree.AgreeBut place tree after ∧ after.read path = .ok (joinLines lines).toUTF8 := by
  obtain ⟨-, -, -, -, -, rfl⟩ := FileTree.create_eq_ok hcreate
  obtain ⟨after, hwrite, hagree, hcontent⟩ :=
    Session.writeLines_spec place lines (FileTree.file?_put_self tree place .empty)
  have hall := ((FileTree.AgreeBut.refl place tree).put .empty).trans hagree
  rw [ByteArray.empty_append] at hcontent
  refine ⟨after, ?_, hall, FileTree.read_of_create hcreate hall hcontent⟩
  rw [run_eq hpath hread, h]
  refine (Session.run_bind (Session.run_create hout hcreate)).trans ?_
  exact (Session.run_bind hwrite).trans rfl

omit hpath hread

theorem process_toUTF8 {width : Int} (hwidth : job.tabWidth = some width) (content : String) :
    job.process content.toUTF8 =
      match Program.ofText (unifyNewlines content.toList) (some job.source) width with
      | .error (.source e) =>
        .ok (.done { exitCode := 1
                     stderr := readingLog job (.error e) ++ e.diagnostic.text ++ "\n" })
      | .error fault => .error fault
      | .ok p => p.listing.map fun lines =>
        match job.outputPath? with
        | none => .done { stdout := joinLines lines, stderr := readingLog job (.ok p) }
        | some path => .write path lines (readingLog job (.ok p)) (writingLog job p path) := by
  rw [process, decodeSource_toUTF8]
  simp only [bind, Except.bind, readProgram, hwidth]
  cases Program.ofText (unifyNewlines content.toList) (some job.source) width with
  | error fault => cases fault <;> rfl
  | ok p =>
    dsimp only
    cases p.listing with
    | error fault => rfl
    | ok lines => cases job.outputPath? <;> rfl

end Job

/-! ## Two runs -/

theorem logLine_eq (verbosity level : Nat) (line : String) :
    logLine verbosity level line = joinLines (if level ≤ verbosity then [line] else []) := by
  rw [logLine]
  split
  · simp [joinLines]
  · rfl

/-- What the log tells of reading a source is at most a line, and none without details. -/
theorem readingLog_eq (job : Job) (reading : Except SourceError Program) :
    ∃ log, readingLog job reading = joinLines log ∧ (job.verbosity < debugLevel → log = []) := by
  unfold readingLog
  split
  · exact ⟨_, logLine_eq _ _ _, fun h => if_neg (Nat.not_le.2 h)⟩
  · exact ⟨_, logLine_eq _ _ _, fun h => if_neg (Nat.not_le.2 h)⟩
  · exact ⟨[], rfl, fun _ => rfl⟩

/-- **How a run to standard output and one to a file end**, when reading the source gives `report`:
alike with a fault or with the diagnostic and its log lines, or with the listing in its two
places. -/
inductive Endings (report : Except Fault Report) (verbosity : Nat) (tree : FileTree)
    (place : Place) (out : String) :
    Except Fault Output × FileTree → Except Fault Output × FileTree → Prop
  | fault {fault : Fault} :
      (∀ diagnostics, report ≠ .ok { program := none, diagnostics := diagnostics }) →
      Endings report verbosity tree place out (.error fault, tree) (.error fault, tree)
  | diagnostic {d : Diagnostic} {log : List String} :
      report = .ok { program := none, diagnostics := [d] } →
      (verbosity < debugLevel → log = []) →
      Endings report verbosity tree place out
        (.ok { exitCode := 1, stderr := joinLines (log ++ [d.text]) }, tree)
        (.ok { exitCode := 1, stderr := joinLines (log ++ [d.text]) }, tree)
  | listing {p : Program} {lines : List String} {log success : String} {after : FileTree} :
      report = .ok { program := some p, diagnostics := [] } → p.listing = .ok lines →
      FileTree.AgreeBut place tree after → after.read out = .ok (joinLines lines).toUTF8 →
      Endings report verbosity tree place out
        (.ok { stdout := joinLines lines, stderr := log }, tree)
        (.ok { stderr := log ++ success }, after)

theorem Job.endings {job : Job} {out content : String} {width : Int} {tree opened : FileTree}
    {place : Place} (hwidth : job.tabWidth = some width) (hnone : job.output = none)
    (hsource : FileTree.pathOk job.source = true)
    (hread : tree.read job.source = .ok content.toUTF8) (hne : out ≠ "")
    (hout : FileTree.pathOk out = true) (hcreate : tree.create out = .ok (place, opened)) :
    Endings (Report.ofText (unifyNewlines content.toList) (some job.source) width) job.verbosity
      tree place out (job.run.run.run tree)
      (({ job with output := some out } : Job).run.run.run tree) := by
  obtain ⟨job', hjob⟩ : ∃ job', job' = { job with output := some out } := ⟨_, rfl⟩
  have hwidth' : job'.tabWidth = some width := by rw [hjob]; exact hwidth
  have hsource' : FileTree.pathOk job'.source = true := by rw [hjob]; exact hsource
  have hread' : tree.read job'.source = .ok content.toUTF8 := by rw [hjob]; exact hread
  have hlog' : readingLog job' = readingLog job := by rw [hjob]; rfl
  have hsame : job'.source = job.source := by rw [hjob]
  have hstdout : job.outputPath? = none := by rw [outputPath?, hnone]; rfl
  have hfile : job'.outputPath? = some out := by simp [hjob, outputPath?, hne]
  have hfirst := process_toUTF8 hwidth content
  have hsecond := process_toUTF8 hwidth' content
  rw [hlog', hsame] at hsecond
  rw [← hjob]
  rw [Report.ofText]
  cases hp : Program.ofText (unifyNewlines content.toList) (some job.source) width with
  | error fault =>
    rw [hp] at hfirst hsecond
    cases fault with
    | source e =>
      obtain ⟨log, hlog, hquiet⟩ := readingLog_eq job (.error e)
      have hstderr : readingLog job (.error e) ++ e.diagnostic.text ++ "\n" =
          joinLines (log ++ [e.diagnostic.text]) := by
        rw [joinLines_append, joinLines_cons, hlog, String.append_assoc]
        simp [joinLines]
      rw [run_of_done hsource hread hfirst, run_of_done hsource' hread' hsecond, hstderr]
      exact .diagnostic rfl hquiet
    | _ =>
      rw [run_of_fault hsource hread hfirst, run_of_fault hsource' hread' hsecond]
      exact .fault (by simp)
  | ok p =>
    rw [hp] at hfirst hsecond
    simp only [hstdout, hfile] at hfirst hsecond
    cases hlines : p.listing with
    | error fault =>
      rw [hlines] at hfirst hsecond
      rw [run_of_fault hsource hread hfirst, run_of_fault hsource' hread' hsecond]
      exact .fault (by simp)
    | ok lines =>
      rw [hlines] at hfirst hsecond
      obtain ⟨after, hrun, hagree, hcontent⟩ := run_of_write hsource' hread' hsecond hout
        hcreate
      rw [run_of_done hsource hread hfirst, hrun]
      exact .listing rfl hlines hagree hcontent

/-- The run ends with an exit code. -/
def Exits (r : Except Fault Output × FileTree) (code : Nat) : Prop :=
  ∃ output, r.1 = .ok output ∧ output.exitCode = code

@[simp]
theorem exits_ok (output : Output) (tree : FileTree) (code : Nat) :
    Exits (.ok output, tree) code ↔ output.exitCode = code := by
  simp [Exits]

@[simp]
theorem not_exits_error (fault : Fault) (tree : FileTree) (code : Nat) :
    ¬ Exits (.error fault, tree) code := by
  simp [Exits]

/-- **The two output paths agree**, when reading the source gives `report`. -/
structure OutputsAgree (report : Except Fault Report) (verbosity : Nat) (tree : FileTree)
    (place : Place) (out : String) (toStdout toFile : Except Fault Output × FileTree) : Prop where
  /-- Both succeed or none. -/
  success : Exits toStdout 0 ↔ Exits toFile 0
  /-- On success both give the lines of the listing. -/
  listing : ∀ output, toStdout.1 = .ok output → output.exitCode = 0 →
    ∃ p lines, report = .ok { program := some p, diagnostics := [] } ∧ p.listing = .ok lines ∧
      output.stdout = joinLines lines ∧ toFile.2.read out = .ok output.stdout.toUTF8
  /-- Both report a diagnostic when there is no program, and only then. -/
  failure : ∀ r ∈ [toStdout, toFile],
    (Exits r 1 ↔ ∃ diagnostics, report = .ok { program := none, diagnostics := diagnostics })
  /-- The diagnostic comes after the log, which is empty unless details are asked for. -/
  diagnostic : ∀ r ∈ [toStdout, toFile], ∀ output, r.1 = .ok output → output.exitCode = 1 →
    ∃ d log, report = .ok { program := none, diagnostics := [d] } ∧
      output.stderr = joinLines (log ++ [d.text]) ∧ (verbosity < debugLevel → log = [])
  /-- Without a listing no file changes. -/
  untouched : ∀ r ∈ [toStdout, toFile], Exits r 1 ∨ (∃ fault, r.1 = .error fault) → r.2 = tree
  /-- In no case another file changes. -/
  frame : toStdout.2 = tree ∧ FileTree.AgreeBut place tree toFile.2

theorem Endings.agree {report : Except Fault Report} {verbosity : Nat} {tree : FileTree}
    {place : Place} {out : String} {toStdout toFile : Except Fault Output × FileTree}
    (h : Endings report verbosity tree place out toStdout toFile) :
    OutputsAgree report verbosity tree place out toStdout toFile := by
  cases h with
  | fault hreport =>
    refine ⟨by simp, by simp, ?_, by simp, by simp, rfl, .refl place tree⟩
    simp only [List.mem_cons, List.not_mem_nil, or_false, or_self, forall_eq, not_exits_error,
      false_iff, not_exists]
    exact hreport
  | diagnostic hreport hlog =>
    refine ⟨by simp, by simp, by simp [hreport], ?_, by simp, rfl, .refl place tree⟩
    simp only [List.mem_cons, List.not_mem_nil, or_false, or_self, forall_eq]
    intro output houtput _
    cases houtput
    exact ⟨_, _, hreport, rfl, hlog⟩
  | listing hreport hlines hagree hcontent =>
    refine ⟨by simp, ?_, by simp [hreport], by simp, by simp, rfl, hagree⟩
    intro output houtput _
    cases houtput
    exact ⟨_, _, hreport, hlines, rfl, hcontent⟩

/-- **A listing is the same on standard output and in a file, and a run without one leaves the files
as they were.** The options may be given in any way that sets the tab width and the verbosity and
nothing else; there is one for all of them (`Command.ofArguments_settings`). -/
theorem run_outputs {source out content : String} {options : List String} {width : Int}
    {verbosity : Nat} {tree opened : FileTree} {place : Place}
    (hoptions : Command.ofArguments (source :: options) =
      .list { source := source, tabWidth := some width, verbosity := verbosity })
    (hsep : "--" ∉ options) (hs : IsPlain source) (ho : IsPlain out) (hne : out ≠ "")
    (hsource : FileTree.pathOk source = true) (hread : tree.read source = .ok content.toUTF8)
    (hout : FileTree.pathOk out = true) (hcreate : tree.create out = .ok (place, opened)) :
    OutputsAgree (Report.ofText (unifyNewlines content.toList) (some source) width) verbosity tree
      place out (run (source :: options) tree) (run (source :: options ++ ["-o", out]) tree) := by
  have hall : "--" ∉ source :: options := by
    simp only [List.mem_cons, not_or]
    exact ⟨hs.ne_separator.symm, hsep⟩
  have hboth := Command.ofArguments_output hoptions hall ho
  have hendings := @Job.endings
    { source := source, tabWidth := some width, verbosity := verbosity } out content width tree
    opened place rfl rfl hsource hread hne hout hcreate
  rw [run, run, hoptions, hboth]
  exact hendings.agree

/-- A source with a listing, and one with an error and a tab width below zero. -/
theorem run_outputs_word :
    OutputsAgree (Report.ofText (unifyNewlines "x:\t.word 1:3\r\n".toList) (some "a.s") 4) 2
        (.ofPaths [("a.s", "x:\t.word 1:3\r\n".toUTF8), ("out", "before".toUTF8)] [])
        (.inside ["out"]) "out"
        (run ["a.s", "--tab-width=4", "-v", "-v"]
          (.ofPaths [("a.s", "x:\t.word 1:3\r\n".toUTF8), ("out", "before".toUTF8)] []))
        (run ["a.s", "--tab-width=4", "-v", "-v", "-o", "out"]
          (.ofPaths [("a.s", "x:\t.word 1:3\r\n".toUTF8), ("out", "before".toUTF8)] [])) ∧
      OutputsAgree (Report.ofText (unifyNewlines "x: 1".toList) (some "a.s") (-3)) 0
        (.ofPaths [("a.s", "x: 1".toUTF8), ("out", "before".toUTF8)] []) (.inside ["out"]) "out"
        (run ["a.s", "--tab-width=-3"]
          (.ofPaths [("a.s", "x: 1".toUTF8), ("out", "before".toUTF8)] []))
        (run ["a.s", "--tab-width=-3", "-o", "out"]
          (.ofPaths [("a.s", "x: 1".toUTF8), ("out", "before".toUTF8)] [])) := by
  -- the paths lead to their files, whatever these hold
  have hread : ∀ a b, (FileTree.ofPaths [("a.s", a), ("out", b)] []).read "a.s" = .ok a :=
    fun _ _ => rfl
  have hcreate : ∀ a b, (FileTree.ofPaths [("a.s", a), ("out", b)] []).create "out" =
      .ok (.inside ["out"],
        (FileTree.ofPaths [("a.s", a), ("out", b)] []).put (.inside ["out"]) .empty) :=
    fun _ _ => rfl
  have hfirst : Command.ofArguments ["a.s", "--tab-width=4", "-v", "-v"] =
      .list { source := "a.s", tabWidth := some 4, verbosity := 2 } := by decide +kernel
  have hsecond : Command.ofArguments ["a.s", "--tab-width=-3"] =
      .list { source := "a.s", tabWidth := some (-3), verbosity := 0 } := by decide +kernel
  exact ⟨run_outputs hfirst (by decide) (by decide) (by decide) (by decide) (by decide)
      (hread _ _) (by decide) (hcreate _ _),
    run_outputs hsecond (by decide) (by decide) (by decide) (by decide) (by decide)
      (hread _ _) (by decide) (hcreate _ _)⟩

end MipsSource.CommandLine
