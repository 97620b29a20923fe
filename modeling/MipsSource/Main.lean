import MipsSource.CommandLine.Run

/-!
# The program

Runs a command line on the real file system: opens the source, writes the listing, and prints what
the run leaves behind.
-/

set_option autoImplicit false

namespace MipsSource.CommandLine

/-- Why the system did not open a path. -/
def OpenError.ofSystem : IO.Error → OpenError
  | .noFileOrDirectory .. => notFound
  | .inappropriateType _ code details => ⟨code.toNat, details⟩
  | .permissionDenied _ code details => ⟨code.toNat, details⟩
  | .invalidArgument _ code details => ⟨code.toNat, details⟩
  | .resourceExhausted _ code details => ⟨code.toNat, details⟩
  | .otherError code details => ⟨code.toNat, details⟩
  | other => ⟨0, toString other⟩

/-- The result of an action on a path, or why the system refused it. -/
def attempt {α : Type} (action : IO α) : IO (Except OpenError α) := do
  try
    return .ok (← action)
  catch e => return .error (.ofSystem e)

/-- Prints what a run leaves behind. -/
def Output.print (output : Output) : IO UInt32 := do
  (← IO.getStdout).putStr output.stdout
  (← IO.getStderr).putStr output.stderr
  return output.exitCode.toUInt32

/-- Prints a fault that is not about the source text. -/
def printFault (fault : Fault) : IO UInt32 := do
  (← IO.getStderr).putStr ((fault.message?.getD (reprStr fault)) ++ "\n")
  return 1

/-- Writes lines to a file, one after the other. -/
def writeLines (path : String) (lines : List String) : IO Unit :=
  IO.FS.withFile path .write fun file => lines.forM fun line => file.putStr (line ++ "\n")

/-- Runs a job. -/
def Job.execute (job : Job) : IO UInt32 := do
  match checkPath job.source with
  | .error fault => printFault fault
  | .ok _ =>
    match job.plan (← attempt (IO.FS.readBinFile job.source)) with
    | .error fault => printFault fault
    | .ok (.done output) => output.print
    | .ok (.write path lines log success) =>
      match checkPath path with
      | .error fault => printFault fault
      | .ok _ => (afterWrite path log success (← attempt (writeLines path lines))).print

/-- Runs a command line. -/
def execute (arguments : List String) : IO UInt32 :=
  match Command.ofArguments arguments with
  | .help => Output.print { stdout := helpText }
  | .misuse text => Output.print { exitCode := 2, stderr := misuseText text }
  | .list job => job.execute

end MipsSource.CommandLine

/-- Runs the program. -/
def main (arguments : List String) : IO UInt32 :=
  MipsSource.CommandLine.execute arguments
