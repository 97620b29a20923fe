import MipsSource.CommandLine.Switch
import MipsSource.Text.TabStops

/-!
# Commands

What a command line asks for: help, or a source text to be listed. A command line that cannot be
understood is answered with its usage.
-/

set_option autoImplicit false

namespace MipsSource.CommandLine

/-- A source text to be listed. -/
structure Job where
  source : String
  /-- Where the listing goes; to standard output if nowhere else. -/
  output : Option String := none
  /-- The tab width, unless the command line sets it to no value. -/
  tabWidth : Option Int := some Text.defaultTabWidth
  verbosity : Nat := 0
deriving DecidableEq, Repr

/-- What a command line asks for. -/
inductive Command where
  | help
  | list (job : Job)
  /-- The command line cannot be understood; `text` tells why. -/
  | misuse (text : String)
deriving DecidableEq, Repr

/-- What is known of a job while its command line is read. -/
structure Draft where
  source : Option String := none
  output : Option String := none
  tabWidth : Option Int := some Text.defaultTabWidth
  verbosity : Nat := 0
  /-- Arguments that are not understood. -/
  extra : List String := []

/-- Why reading a command line ends early. -/
inductive Exit where
  | help
  | misuse (text : String)

namespace Draft

/-- Adds an argument that is not understood. -/
def addExtra (d : Draft) (text : String) : Draft :=
  { d with extra := d.extra ++ [text] }

/-- Applies a switch with its value. -/
def apply (d : Draft) (use : Switch × Option String) : Except Exit Draft :=
  match use with
  | (.help, _) => .error .help
  | (.output, value) => .ok { d with output := value }
  | (.verbose, _) => .ok { d with verbosity := d.verbosity + 1 }
  | (.tabWidth, none) => .ok { d with tabWidth := none }
  | (.tabWidth, some value) =>
    match Numeral.readDecimal value.toList with
    | .ok width => .ok { d with tabWidth := some width }
    | .error _ =>
      .error (.misuse (Switch.tabWidth.complaint
        ("invalid int value: " ++ Text.quoted value.toList)))

/-- Applies the switches of one argument; `value` is that of the last, if it waits for one. -/
def applyExpansion (d : Draft) (e : Expansion) (value : Option String) : Except Exit Draft :=
  (e.done ++ (e.waiting.map fun s => (s, value)).toList).foldlM apply d

/-- Reads the arguments one after the other. The first operand is the source. A separator is
dropped next to the source; elsewhere it is not understood. -/
def read (d : Draft) : List Argument → Except Exit Draft
  | [] => .ok d
  | .operand text :: .separator :: rest =>
    if d.source.isNone then read { d with source := some text } rest
    else read ((d.addExtra text).addExtra "--") rest
  | .operand text :: rest =>
    read (if d.source.isNone then { d with source := some text } else d.addExtra text) rest
  | .separator :: rest =>
    read (if d.source.isNone then d else d.addExtra "--") rest
  | .unknown text :: rest => read (d.addExtra text) rest
  | .switch use :: rest =>
    match use.expand with
    | .error text => .error (.misuse text)
    | .ok e =>
      match e.waiting, rest with
      | some _, .operand value :: rest => do
        let d ← d.applyExpansion e (some value)
        d.read rest
      | some s, _ => .error (.misuse (s.complaint "expected one argument"))
      | none, rest => do
        let d ← d.applyExpansion e none
        d.read rest

/-- The command of a draft: it needs a source, and everything has to be understood. -/
def command (d : Draft) : Command :=
  match d.source with
  | none => .misuse "the following arguments are required: source"
  | some source =>
    if d.extra.isEmpty then
      .list { source := source, output := d.output, tabWidth := d.tabWidth,
              verbosity := d.verbosity }
    else .misuse ("unrecognized arguments: " ++ " ".intercalate d.extra)

end Draft

/-- What the arguments of a command line ask for. -/
def Command.ofArguments (texts : List String) : Command :=
  match Argument.ofTexts texts with
  | .error text => .misuse text
  | .ok arguments =>
    match Draft.read {} arguments with
    | .ok d => d.command
    | .error .help => .help
    | .error (.misuse text) => .misuse text

/-! ## Usage -/

/-- The name of the program. -/
def programName : String := "mips-parse"

/-- How the program is called. -/
def usage : String :=
  "usage: " ++ programName ++ " [-h] [-o OUTPUT] [--tab-width TAB_WIDTH] [-v] source\n"

/-- The answer to a command line that cannot be understood. -/
def misuseText (text : String) : String :=
  usage ++ programName ++ ": error: " ++ text ++ "\n"

/-- The answer to a call for help. -/
def helpText : String :=
  usage ++
  "\n" ++
  "MIPS assembly front end: parse and list a source file\n" ++
  "\n" ++
  "positional arguments:\n" ++
  "  source                archivo .s/.asm de entrada\n" ++
  "\n" ++
  "options:\n" ++
  "  -h, --help            show this help message and exit\n" ++
  "  -o OUTPUT, --output OUTPUT\n" ++
  "                        escribir el listado en este archivo (por defecto,\n" ++
  "                        stdout)\n" ++
  "  --tab-width TAB_WIDTH\n" ++
  "                        ancho de tabulador para calcular columnas (por defecto\n" ++
  "                        8)\n" ++
  "  -v, --verbose         más mensajes de log (-v, -vv)\n"

end MipsSource.CommandLine
