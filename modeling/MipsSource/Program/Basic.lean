import MipsSource.Item.Basic

/-!
# Programs

The items of a source text in order, each with the line it starts on.
-/

set_option autoImplicit false

namespace MipsSource

/-- The items of a source text, with their lines. -/
structure Program where
  items : List (Item × Int)
deriving DecidableEq, Repr

namespace Program

/-- The labels, with their lines. -/
def labels (p : Program) : List (String × Int) :=
  p.items.filterMap fun
    | (.label name, line) => some (name, line)
    | _ => none

/-- The directives, with their lines. -/
def directives (p : Program) : List (Directive × Int) :=
  p.items.filterMap fun
    | (.directive d, line) => some (d, line)
    | _ => none

/-- The instructions, with their lines. -/
def instructions (p : Program) : List (Instruction × Int) :=
  p.items.filterMap fun
    | (.instruction i, line) => some (i, line)
    | _ => none

end Program

end MipsSource
