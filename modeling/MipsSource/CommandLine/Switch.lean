import MipsSource.Numeral.Read
import MipsSource.Text.Quoted

/-!
# Switches of the command line

How a single argument is understood: as a switch, with a value that may be part of the same
argument, or as an operand. Long switches may be shortened as long as they stay unique, short ones
may be run together (`-vo list`).
-/

set_option autoImplicit false

namespace MipsSource.CommandLine

/-- The switches of the command line. -/
inductive Switch where
  | help
  | output
  | tabWidth
  | verbose
deriving DecidableEq, Repr

namespace Switch

/-- The spellings of the switches. -/
def spellings : List (String × Switch) :=
  [("-h", .help), ("--help", .help), ("-o", .output), ("--output", .output),
   ("--tab-width", .tabWidth), ("-v", .verbose), ("--verbose", .verbose)]

/-- The switch with this spelling. -/
def ofSpelling? (spelling : String) : Option Switch :=
  spellings.lookup spelling

/-- The switch with this letter. -/
def ofLetter? (letter : Char) : Option Switch :=
  ofSpelling? (String.ofList ['-', letter])

/-- Does the switch take a value? -/
def takesValue : Switch → Bool
  | .output | .tabWidth => true
  | .help | .verbose => false

/-- All spellings of a switch, as messages name it. -/
def title (s : Switch) : String :=
  "/".intercalate ((spellings.filter fun entry => entry.2 = s).map (·.1))

/-- A complaint about a switch. -/
def complaint (s : Switch) (text : String) : String :=
  "argument " ++ s.title ++ ": " ++ text

/-- The complaint about a value that a switch does not take. -/
def ignored (s : Switch) (value : List Char) : String :=
  s.complaint ("ignored explicit argument " ++ Text.quoted value)

end Switch

/-! ## Arguments -/

/-- A switch as an argument spells it. -/
structure SwitchUse where
  switch : Switch
  /-- Has it a single dash? -/
  isShort : Bool
  /-- What the same argument says after the spelling, if anything. -/
  value : Option (List Char) := none

/-- An argument of the command line. -/
inductive Argument where
  /-- The value of a switch, or the source. -/
  | operand (text : String)
  | switch (use : SwitchUse)
  /-- Looks like a switch, but is none. -/
  | unknown (text : String)
  /-- Two dashes: what follows are operands only. -/
  | separator

/-- The text before the first equals sign, and the text after it. -/
def splitEquals (text : List Char) : List Char × Option (List Char) :=
  match text.dropWhile (· ≠ '=') with
  | [] => (text, none)
  | _ :: value => (text.takeWhile (· ≠ '='), some value)

/-- Is the text one or more decimal digits? -/
def isDigitRun (text : List Char) : Bool :=
  !text.isEmpty && text.all fun c => (Text.decimalDigit? c).isSome

/-- Is the text, past a dash, a number with or without a fraction? A newline at its end does not
count. -/
def isNegativeNumber (text : List Char) : Bool :=
  match text with
  | '-' :: number =>
    let number := if number.getLast? = some '\n' then number.dropLast else number
    let fraction := number.dropWhile fun c => (Text.decimalDigit? c).isSome
    isDigitRun number || (fraction.head? = some '.' && isDigitRun fraction.tail)
  | _ => false

/-- The switches that a long spelling may be short for. -/
def abbreviated (spelling : List Char) : List (String × Switch) :=
  Switch.spellings.filter fun entry => spelling.isPrefixOf entry.1.toList

/-- The complaint about a shortened switch that could be several. -/
def ambiguity (text : List Char) (spellings : List String) : String :=
  "ambiguous option: " ++ String.ofList text ++ " could match " ++ ", ".intercalate spellings

/-- An argument that starts with a dash and is neither a spelling nor one before an equals sign. -/
def ofDashed (text : List Char) : Except String Argument :=
  let uses : List (String × SwitchUse) := match text with
    | '-' :: '-' :: _ =>
      let (spelling, value) := splitEquals text
      (abbreviated spelling).map fun (full, s) =>
        (full, { switch := s, isShort := false, value := value })
    | '-' :: letter :: value =>
      (Switch.ofLetter? letter).toList.map fun s =>
        (String.ofList ['-', letter], { switch := s, isShort := true, value := some value })
    | _ => []
  match uses with
  | [] =>
    if isNegativeNumber text || text.contains ' ' then .ok (.operand (String.ofList text))
    else .ok (.unknown (String.ofList text))
  | [use] => .ok (.switch use.2)
  | _ => .error (ambiguity text (uses.map (·.1)))

/-- Does a spelling have a single dash? -/
def isShortSpelling (spelling : List Char) : Bool :=
  spelling.length = 2

/-- How an argument is understood, before any separator. -/
def Argument.ofText (text : String) : Except String Argument :=
  match text.toList with
  | ['-'] => .ok (.operand text)
  | ['-', '-'] => .ok .separator
  | '-' :: rest =>
    match Switch.ofSpelling? text with
    | some s => .ok (.switch { switch := s, isShort := isShortSpelling text.toList })
    | none =>
      match splitEquals ('-' :: rest) with
      | (spelling, some value) =>
        match Switch.ofSpelling? (String.ofList spelling) with
        | some s =>
          .ok (.switch { switch := s, isShort := isShortSpelling spelling, value := some value })
        | none => ofDashed ('-' :: rest)
      | (_, none) => ofDashed ('-' :: rest)
  | _ => .ok (.operand text)

/-- How the arguments of a command line are understood. -/
def Argument.ofTexts : List String → Except String (List Argument)
  | [] => .ok []
  | text :: texts => do
    match ← Argument.ofText text with
    | .separator => return .separator :: texts.map .operand
    | argument => return argument :: (← Argument.ofTexts texts)

/-! ## Switches run together -/

/-- The switches that one argument holds. -/
structure Expansion where
  /-- The switches with their values. -/
  done : List (Switch × Option String) := []
  /-- A last switch whose value is the next argument. -/
  waiting : Option Switch := none

/-- Puts a switch without a value before others. -/
def Expansion.after (s : Switch) (e : Expansion) : Expansion :=
  { e with done := (s, none) :: e.done }

/-- A switch at the end of its argument. -/
def Expansion.last (s : Switch) : Expansion :=
  if s.takesValue then { waiting := some s } else { done := [(s, none)] }

/-- The value that an argument gives its own switch. Two dashes stand for no value. -/
def ownValue (text : List Char) : Option String :=
  if text = ['-', '-'] then none else some (String.ofList text)

/-- The switches of an argument that goes on with `value` after the spelling of `s`. After a letter
that takes no value there may only be more letters of switches. -/
def expandValue (s : Switch) (isShort : Bool) (value : List Char) : Except String Expansion :=
  if s.takesValue then .ok { done := [(s, ownValue value)] }
  else
    match value with
    | [] => .error (s.ignored value)
    | letter :: rest =>
      match (if isShort then Switch.ofLetter? letter else none) with
      | none => .error (s.ignored value)
      | some next =>
        if rest.isEmpty then .ok (.after s (.last next))
        else (expandValue next true rest).map (.after s)
termination_by structural value

/-- The switches of an argument. -/
def SwitchUse.expand (use : SwitchUse) : Except String Expansion :=
  match use.value with
  | some value => expandValue use.switch use.isShort value
  | none => .ok (.last use.switch)

end MipsSource.CommandLine
