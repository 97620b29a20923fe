import MipsSource.CommandLine.Command
import MipsSource.CommandLine.FileTree
import MipsSource.Program.Listing
import MipsSource.Program.Parser

/-!
# Running a command

A job reads its source, lists the program to standard output or to a file, and reports errors on
standard error. What a job does is settled here for any answer that the file system may give. On a
file tree it is a sequence of steps, and a fault leaves the tree as the steps before it did.
-/

set_option autoImplicit false

namespace MipsSource.CommandLine

/-- What a run leaves behind. -/
structure Output where
  exitCode : Nat := 0
  stdout : String := ""
  stderr : String := ""
deriving DecidableEq, Repr

/-- Lines with a newline at the end of each. -/
def joinLines (lines : List String) : String :=
  String.join (lines.map (· ++ "\n"))

/-- Line ends of other systems become newlines. -/
def unifyNewlines : List Char → List Char
  | [] => []
  | '\r' :: '\n' :: rest => '\n' :: unifyNewlines rest
  | c :: rest => (if c = '\r' then '\n' else c) :: unifyNewlines rest

/-- The text of a source file. -/
def decodeSource (content : ByteArray) : Except Fault (List Char) :=
  match String.fromUTF8? content with
  | some text => .ok (unifyNewlines text.toList)
  | none => .error .undecodable

/-! ## Log lines -/

/-- The verbosity from which on progress is told. -/
def infoLevel : Nat := 1

/-- The verbosity from which on details are told. -/
def debugLevel : Nat := 2

/-- A line of the log, if the verbosity asks for it. -/
def logLine (verbosity level : Nat) (line : String) : String :=
  if level ≤ verbosity then line ++ "\n" else ""

/-- A count of items. -/
def itemCount (p : Program) : String :=
  Nat.repr p.items.length ++ " items"

/-- What the log tells of reading a source. -/
def readingLog (job : Job) (reading : Except SourceError Program) : String :=
  match reading with
  | .ok p =>
    logLine job.verbosity debugLevel
      ("DEBUG mips_asm.parser: " ++ job.source ++ ": " ++ itemCount p)
  | .error { cause := .noItem _, line, col, .. } =>
    logLine job.verbosity debugLevel
      ("DEBUG mips_asm.parser: ningún item reconocido en " ++ Diagnostic.place line col)
  | .error _ => ""

/-- What the log tells of a listing that was written to a file. -/
def writingLog (job : Job) (p : Program) (path : String) : String :=
  logLine job.verbosity infoLevel ("INFO mips_asm.cli: " ++ itemCount p ++ " -> " ++ path)

/-! ## Jobs -/

/-- What is left to do once the source was opened. -/
inductive Plan where
  | done (output : Output)
  /-- Write the lines of a file; `log` comes before and `success` after it. -/
  | write (path : String) (lines : List String) (log success : String)
deriving DecidableEq, Repr

namespace Job

/-- Where the listing goes, if not to standard output; an empty path is none. -/
def outputPath? (job : Job) : Option String :=
  job.output.filter (· ≠ "")

/-- Reads the program of a source text; an error in the text is a result. Without a tab width the
text has no columns, whether it has tabs or not. -/
def readProgram (job : Job) (text : List Char) : Except Fault (Except SourceError Program) :=
  match job.tabWidth with
  | none => .error .wrongKind
  | some width =>
    match Program.ofText text (some job.source) width with
    | .ok p => .ok (.ok p)
    | .error (.source e) => .ok (.error e)
    | .error fault => .error fault

/-- What a job does with the content of its source. -/
def process (job : Job) (content : ByteArray) : Except Fault Plan := do
  let text ← decodeSource content
  let reading ← job.readProgram text
  let log := readingLog job reading
  match reading with
  | .error e => return .done { exitCode := 1, stderr := log ++ e.diagnostic.text ++ "\n" }
  | .ok p =>
    let lines ← p.listing
    match job.outputPath? with
    | none => return .done { stdout := joinLines lines, stderr := log }
    | some path => return .write path lines log (writingLog job p path)

/-- What a job does when its source was opened, or could not be. -/
def plan (job : Job) (source : Except OpenError ByteArray) : Except Fault Plan :=
  match source with
  | .ok content => job.process content
  | .error e =>
    .ok (.done { exitCode := 2
                 stderr := "ERROR: no pude leer " ++ job.source ++ ": " ++
                   e.message job.source ++ "\n" })

end Job

/-- What a run leaves behind after its file was written, or could not be. -/
def afterWrite (path log success : String) (result : Except OpenError Unit) : Output :=
  match result with
  | .ok _ => { stderr := log ++ success }
  | .error e =>
    { exitCode := 3, stderr := log ++ "ERROR al escribir el listado: " ++ e.message path ++ "\n" }

/-- A path that can be opened. -/
def checkPath (path : String) : Except Fault Unit :=
  if FileTree.pathOk path then .ok () else .error .nulInPath

/-! ## Steps on a file tree -/

/-- Steps on a file tree. A fault ends them and leaves the tree as it is then. -/
abbrev Session := ExceptT Fault (StateM FileTree)

namespace Session

/-- Reads the file that a path leads to. -/
def readFile (path : String) : Session (Except OpenError ByteArray) := do
  checkPath path
  return (← get).read path

/-- Opens a path for writing. What the file held before is lost. -/
def create (path : String) : Session (Except OpenError Place) := do
  checkPath path
  match (← get).create path with
  | .error e => return .error e
  | .ok (place, opened) =>
    set opened
    return .ok place

/-- Writes lines to the end of the file at a place, one after the other, as UTF-8. Text is made of
Unicode scalar values, so every line can be written: a lone surrogate, which has no UTF-8 form, is
no character of a text. -/
def writeLines (place : Place) : List String → Session Unit
  | [] => return ()
  | line :: lines => do
    modify fun tree => tree.append place (line ++ "\n").toUTF8
    writeLines place lines

end Session

/-- Runs a job on a file tree. -/
def Job.run (job : Job) : Session Output := do
  match ← job.plan (← Session.readFile job.source) with
  | .done output => return output
  | .write path lines log success =>
    match ← Session.create path with
    | .error e => return afterWrite path log success (.error e)
    | .ok place =>
      Session.writeLines place lines
      return afterWrite path log success (.ok ())

/-- Runs a command on a file tree. -/
def Command.run : Command → Session Output
  | .help => return { stdout := helpText }
  | .misuse text => return { exitCode := 2, stderr := misuseText text }
  | .list job => job.run

/-- Runs a command line on a file tree: what the run leaves behind or why it ends without, and the
tree after it. -/
def run (arguments : List String) (tree : FileTree) : Except Fault Output × FileTree :=
  (Command.ofArguments arguments).run.run tree

end MipsSource.CommandLine
