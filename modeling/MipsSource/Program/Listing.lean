import MipsSource.Item.Render
import MipsSource.Program.Basic

/-!
# Listings

A listing has a line for each item: the line of the source text it starts on, a tab, and the item.
Directives and instructions are indented.
-/

set_option autoImplicit false

namespace MipsSource.Program

/-- What stands before an item in a listing. -/
def indent : Item → String
  | .label _ => ""
  | .directive _ => "    "
  | .instruction _ => "    "

/-- The line of a listing for an item. -/
def listingLine (entry : Item × Int) : Except Fault String :=
  entry.1.render.map fun text => Numeral.text entry.2 ++ "\t" ++ indent entry.1 ++ text

/-- The lines of the listing of a program. -/
def listing (p : Program) : Except Fault (List String) :=
  p.items.mapM listingLine

end MipsSource.Program
