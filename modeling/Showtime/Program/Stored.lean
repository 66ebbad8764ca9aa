/-
# Programs as JSON

The form in which programs are stored.  A record is an object with one field
per part, and a choice is an object whose only field names the alternative.

Reading is more liberal than writing: a record may also be the array of its
parts in order, of exactly that length; an object may have further fields and
any order of fields; and an instruction, written as its bare name, may also be
an object with that name and the value `null`.
-/

import Showtime.Integer
import Showtime.Json.Basic
import Showtime.Program.Basic

namespace Showtime

/-! ### Names of the alternatives -/

/-- The name of an instruction. -/
def Op.name : Op → String
  | print => "Print"
  | declare => "Declare"
  | firstOperand => "FirstOperand"
  | add => "Add"
  | subtract => "Subtract"
  | multiply => "Multiply"
  | divide => "Divide"
  | equalTo => "EqualTo"
  | greaterThan => "GreaterThan"
  | or => "Or"
  | and => "And"
  | giveBack => "Return"
  | call => "CallMethod"
  | callInto => "AssignFromCall"

/-- The name of a kind of block. -/
def BlockKind.name : BlockKind → String
  | assignment => "Assignment"
  | conditional => "Conditional"
  | loop => "Loop"
  | trueBranch => "TrueBranch"
  | falseBranch => "FalseBranch"

/-- The instruction of this name. -/
def Op.ofName? (s : String) : Option Op :=
  all.find? (·.name == s)

/-- An instruction is found by its stored name. -/
@[simp]
theorem Op.ofName?_name (op : Op) : ofName? op.name = some op := by
  cases op <;> decide

/-- The kind of block of this name. -/
def BlockKind.ofName? (s : String) : Option BlockKind :=
  all.find? (·.name == s)

/-- A kind of block is found by its stored name. -/
@[simp]
theorem BlockKind.ofName?_name (kind : BlockKind) : ofName? kind.name = some kind := by
  cases kind <;> decide

/-! ### Writing -/

/-- An object that names an alternative. -/
def Json.tagged (name : String) (value : Json) : Json :=
  .obj [(name, value)]

/-- The stored form of an operand. -/
def Value.toJson : Value → Json
  | int n => .tagged "Integer" (.int n.toInt)
  | str s => .tagged "String" (.str s)
  | var name => .tagged "Variable" (.str name)

namespace Statement

mutual

/-- The stored form of a statement. -/
def toJson : Statement → Json
  | expression op args =>
    .tagged "Expression" (.obj [("op", .str op.name), ("args", .arr (args.map Value.toJson))])
  | block kind args body =>
    .tagged "Block" (.obj [("kind", .str kind.name), ("args", .arr (args.map Value.toJson)),
      ("statements", .arr (toJsonAll body))])

/-- The stored form of each statement. -/
def toJsonAll : List Statement → List Json
  | [] => []
  | s :: rest => toJson s :: toJsonAll rest

end

end Statement

/-- The stored form of a method. -/
def Method.toJson (m : Method) : Json :=
  .obj [("name", .str m.name), ("params", .arr (m.params.map Json.str)),
    ("body", .arr (Statement.toJsonAll m.body))]

/-- The stored form of a program. -/
def Program.toJson (p : Program) : Json :=
  .obj [("main", p.main.toJson), ("methods", .arr (p.methods.map Method.toJson))]

/-! ### Reading -/

namespace Json

/-- The parts of a record with these field names, in this order. -/
def parts? (names : List String) : Json → Option (List Json)
  | obj fields => names.mapM fun name => (obj fields).field? name
  | arr items => if items.length = names.length then some items else none
  | _ => none

/-- The name and value of an object that names an alternative. -/
def variant? : Json → Option (String × Json)
  | obj [field] => some field
  | _ => none

/-- The name of an alternative without a value. -/
def bareName? : Json → Option String
  | str s => some s
  | obj [(name, null)] => some name
  | _ => none

/-- The integer of a value, if it has one that fits. -/
def int64? (value : Json) : Option Int64 :=
  value.int?.bind Integer.ofInt?

end Json

/-- The operand of this stored form. -/
def Value.ofJson? (json : Json) : Option Value := do
  match ← json.variant? with
  | ("Integer", value) => return .int (← value.int64?)
  | ("String", value) => return .str (← value.str?)
  | ("Variable", value) => return .var (← value.str?)
  | _ => none

/-- The operands of this stored form. -/
def Value.listOfJson? (json : Json) : Option (List Value) := do
  (← json.arr?).mapM Value.ofJson?

/-- The instruction of this stored form. -/
def Op.ofJson? (json : Json) : Option Op :=
  json.bareName?.bind ofName?

/-- The kind of block of this stored form. -/
def BlockKind.ofJson? (json : Json) : Option BlockKind :=
  json.bareName?.bind ofName?

namespace Statement

/-- The instruction with operands of this stored form. -/
def expressionOfJson? (json : Json) : Option Statement := do
  match ← json.parts? ["op", "args"] with
  | [op, args] => return .expression (← Op.ofJson? op) (← Value.listOfJson? args)
  | _ => none

mutual

/-- The statement of this stored form. -/
def ofJson? : Json → Option Statement
  | .obj [("Expression", json)] => expressionOfJson? json
  | .obj [("Block", .arr [kind, args, .arr items])] => do
    return .block (← BlockKind.ofJson? kind) (← Value.listOfJson? args) (← listOfJson? items)
  | .obj [("Block", .obj fields)] => do
    let kind ← (Json.obj fields).field? "kind"
    let args ← (Json.obj fields).field? "args"
    return .block (← BlockKind.ofJson? kind) (← Value.listOfJson? args) (← bodyOfFields? fields)
  | _ => none

/-- The statements in the first field for them. -/
def bodyOfFields? : List (String × Json) → Option (List Statement)
  | [] => none
  | (name, json) :: fields =>
    if name = "statements" then
      match json with
      | .arr items => listOfJson? items
      | _ => none
    else bodyOfFields? fields

/-- The statements of these stored forms. -/
def listOfJson? : List Json → Option (List Statement)
  | [] => some []
  | json :: rest => do
    return (← ofJson? json) :: (← listOfJson? rest)

end

end Statement

/-- The method of this stored form. -/
def Method.ofJson? (json : Json) : Option Method := do
  match ← json.parts? ["name", "params", "body"] with
  | [name, params, body] =>
    return {
      name := ← name.str?
      params := ← (← params.arr?).mapM Json.str?
      body := ← Statement.listOfJson? (← body.arr?) }
  | _ => none

/-- The program of this stored form. -/
def Program.ofJson? (json : Json) : Option Program := do
  match ← json.parts? ["main", "methods"] with
  | [main, methods] =>
    return { main := ← Method.ofJson? main, methods := ← (← methods.arr?).mapM Method.ofJson? }
  | _ => none

end Showtime
