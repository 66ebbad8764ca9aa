/-
# Programs as text

The listing of a program on one line, for debugging.  Names and strings are
quoted, lists stand in brackets, and phrases name the statements, so that two
programs with one listing are one program.
-/

import Showtime.Program.Basic
import Showtime.Text.Quoted

namespace Showtime

/-- Texts between brackets, with commas. -/
def bracketList (items : List String) : String :=
  "[" ++ ", ".intercalate items ++ "]"

/-- The listing of an operand. -/
def Value.render : Value → String
  | int n => s!"Integer({n.toInt})"
  | str s => s!"String({Text.quote s})"
  | var name => s!"Variable({Text.quote name})"

namespace Statement

mutual

/-- The listing of a statement. -/
def render : Statement → String
  | expression op args =>
    "Expression(" ++ Text.quote op.text ++ ", " ++ bracketList (args.map Value.render) ++ ")"
  | block kind args body =>
    "Block(" ++ Text.quote kind.text ++ ", " ++ bracketList (args.map Value.render) ++ ", " ++
      bracketList (renderAll body) ++ ")"

/-- The listing of each statement. -/
def renderAll : List Statement → List String
  | [] => []
  | s :: rest => render s :: renderAll rest

end

end Statement

/-- The listing of a method. -/
def Method.render (m : Method) : String :=
  "Method(" ++ Text.quote m.name ++ ", Params: " ++ bracketList (m.params.map Text.quote) ++
    ", Body: " ++ bracketList (Statement.renderAll m.body) ++ ")"

/-- The listing of a program. -/
def Program.render (p : Program) : String :=
  "Program(Main: " ++ p.main.render ++ ", Methods: " ++
    bracketList (p.methods.map Method.render) ++ ")"

end Showtime
