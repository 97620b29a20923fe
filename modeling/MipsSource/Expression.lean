import MipsSource.Item.Parser
import MipsSource.Lexeme.Kind
import MipsSource.Value.Basic

/-!
# Parser expressions

Parsers as data: the parsers of the library by name, and the ways to combine them. The value of an
expression is a `Value`.
-/

set_option autoImplicit false

namespace MipsSource

/-- The parsers that have a name. -/
inductive NamedParser where
  | identifier
  | string
  | character
  | integer
  | float
  | spaces
  | spaces1
  | comma
  | register
  | immediate
  | symbol
  | memory
  | operand
  | placedOperand
  | instruction
  | directive
  | label
  | item
  | position
deriving DecidableEq, Repr

namespace NamedParser

/-- The parser that a name stands for. -/
def parser : NamedParser → Parser Value
  | .identifier => .text <$> Parser.identifier
  | .string => .text <$> Parser.string
  | .character => .text <$> Parser.character
  | .integer => .int <$> Parser.integer
  | .float => .float <$> Parser.float
  | .spaces => .text <$> Parser.spaces
  | .spaces1 => .text <$> Parser.spaces1
  | .comma => (fun pieces => .tuple (pieces.map .text)) <$> Parser.comma
  | .register => .register <$> Parser.register
  | .immediate => (fun value => .operand (.immediate value)) <$> Parser.immediate
  | .symbol => (fun s => .operand (.symbol s)) <$> Parser.symbol
  | .memory => .operand <$> Parser.memory
  | .operand => .operand <$> Parser.operand
  | .placedOperand =>
    (fun placed => .tuple [.operand placed.1, .int placed.2]) <$> Parser.placedOperand
  | .instruction => (fun i => .ofItem (.instruction i)) <$> Parser.instruction
  | .directive => (fun d => .ofItem (.directive d)) <$> Parser.directive
  | .label => (fun name => .ofItem (.label name)) <$> Parser.label
  | .item => .ofItem <$> Parser.item
  | .position => .place <$> Parser.position

end NamedParser

/-- The functions that an expression can apply to a value. -/
inductive ValueMap where
  | length
  | first
  /-- The list of the value alone. -/
  | wrap
deriving DecidableEq, Repr

namespace ValueMap

/-- Applies a function to a value. -/
def apply : ValueMap → Value → Except Fault Value
  | .length, v => v.length.map fun n => .int n
  | .first, v => v.first
  | .wrap, v => .ok (.list [v])

end ValueMap

/-- A parser as data. -/
inductive Expression where
  | named (parser : NamedParser)
  | tag (word : String)
  | choice (parsers : List Expression)
  | sequence (parsers : List Expression)
  | optional (parser : Expression) (default : Option String)
  | many (parser : Expression)
  | preceded (first second : Expression)
  | sepBy1 (separator item : Expression)
  /-- A lexeme, or a part of it. -/
  | lexeme (kind : LexemeKind) (part : Nat)
  | map (function : ValueMap) (parser : Expression)

namespace Expression

/-- Reads a lexeme and gives one of its parts. -/
def lexemePart (kind : LexemeKind) (part : Nat) : Parser Value := do
  let found ← Parser.scan fun text => (kind.match? text).map fun m => (m, m.whole.length)
  match found.part? part with
  | some text => return .text (String.ofList text)
  | none => Parser.fail .missingElement

mutual

/-- The parser that an expression describes. -/
def parser : Expression → Parser Value
  | .named p => p.parser
  | .tag word => .text <$> Parser.tag word
  | .choice ps => Parser.choice (parsers ps)
  | .sequence ps => .tuple <$> Parser.sequence (parsers ps)
  | .optional p default => Parser.withDefault p.parser ((default.map .text).getD .none)
  | .many p => .list <$> Parser.many p.parser
  | .preceded p q => Parser.preceded p.parser q.parser
  | .sepBy1 separator item => .list <$> Parser.sepBy1 separator.parser item.parser
  | .lexeme kind part => lexemePart kind part
  | .map function p => do
    let value ← p.parser
    Parser.ofExcept (function.apply value)

/-- The parsers that expressions describe. -/
def parsers : List Expression → List (Parser Value)
  | [] => []
  | p :: ps => p.parser :: parsers ps

end

end Expression

end MipsSource
