/-
# Programs

A program is an entry method and named methods.  A statement is one instruction
with its operands, or a block that owns further statements:

| statement | operands | owned statements |
| --- | --- | --- |
| `print` | string, integer or variable | |
| `declare` | variable, integer | |
| `firstOperand` and the fold operators | one operand | |
| `giveBack` | at most one operand | |
| `call` | method name, arguments | |
| `callInto` | destination, method name, arguments | |
| `assignment` block | target | a first operand, then fold operators |
| `conditional` block | test | a true branch and at most one false branch |
| `loop` block | test | the body |

The types allow more than this: a program that was put together by hand may
have any operands and any nesting, and still has a meaning when it is run.
-/

import Showtime.Integer
import Showtime.Phrase

namespace Showtime

/-- A literal operand, or a variable by name. -/
inductive Value where
  | int (n : Int64)
  | str (s : String)
  | var (name : String)
deriving DecidableEq, Repr

namespace Value

/-- The integer that stands for a truth value. -/
def ofBool (b : Bool) : Value :=
  int (Integer.ofBool b)

/-- The name, if the operand is a variable. -/
def varName? : Value → Option String
  | var name => some name
  | _ => none

/-- What kind of operand this is, for messages. -/
def kind : Value → String
  | int _ => "integer"
  | str _ => "string"
  | var _ => "variable"

end Value

/-- An instruction that owns no statements. -/
inductive Op where
  | print
  | declare
  /-- Starts the fold of an assignment. -/
  | firstOperand
  | add
  | subtract
  | multiply
  | divide
  | equalTo
  | greaterThan
  | or
  | and
  | giveBack
  | call
  | callInto
deriving DecidableEq, Repr

namespace Op

/-- All instructions, in the order above. -/
def all : List Op :=
  [print, declare, firstOperand, add, subtract, multiply, divide, equalTo, greaterThan, or, and,
    giveBack, call, callInto]

/-- The phrase that the instruction is written with. -/
def phrase : Op → Phrase
  | print => .print
  | declare => .declare
  | firstOperand => .firstOperand
  | add => .add
  | subtract => .subtract
  | multiply => .multiply
  | divide => .divide
  | equalTo => .equalTo
  | greaterThan => .greaterThan
  | or => .or
  | and => .and
  | giveBack => .giveBack
  | call => .call
  | callInto => .callInto

/-- The text of the phrase. -/
def text (op : Op) : String := op.phrase.text

/-- Can stand after the first operand of an assignment. -/
def isFold : Op → Bool
  | add | subtract | multiply | divide | equalTo | greaterThan | or | and => true
  | print | declare | firstOperand | giveBack | call | callInto => false

end Op

/-- An instruction that owns statements. -/
inductive BlockKind where
  | assignment
  | conditional
  | loop
  /-- Runs when the test of a conditional is not zero. -/
  | trueBranch
  /-- Runs when the test of a conditional is zero. -/
  | falseBranch
deriving DecidableEq, Repr

namespace BlockKind

/-- All kinds of blocks, in the order above. -/
def all : List BlockKind :=
  [assignment, conditional, loop, trueBranch, falseBranch]

/-- How the block is named: by its phrase, or by a mark for the branches, which
have no phrase of their own. -/
def text : BlockKind → String
  | assignment => Phrase.assign.text
  | conditional => Phrase.branch.text
  | loop => Phrase.loop.text
  | trueBranch => "__TRUE"
  | falseBranch => "__FALSE"

end BlockKind

/-- A statement. -/
inductive Statement where
  | expression (op : Op) (args : List Value)
  | block (kind : BlockKind) (args : List Value) (body : List Statement)
deriving Repr

namespace Statement

mutual

/-- The statement and all statements inside it, each before its own. -/
def preorder : Statement → List Statement
  | expression op args => [expression op args]
  | block kind args body => block kind args body :: preorderAll body

/-- The statements of a list with all statements inside them. -/
def preorderAll : List Statement → List Statement
  | [] => []
  | s :: rest => preorder s ++ preorderAll rest

end

mutual

/-- Equality of statements is decidable. -/
def decEq : (s t : Statement) → Decidable (s = t)
  | expression op args, expression op' args' =>
    decidable_of_iff (op = op' ∧ args = args') (by simp)
  | block kind args body, block kind' args' body' =>
    match decEqAll body body' with
    | .isTrue h => decidable_of_iff (kind = kind' ∧ args = args') (by simp [h])
    | .isFalse h => .isFalse (by simp [h])
  | expression .., block .. => .isFalse (by simp)
  | block .., expression .. => .isFalse (by simp)

/-- Equality of lists of statements is decidable. -/
def decEqAll : (ss ts : List Statement) → Decidable (ss = ts)
  | [], [] => .isTrue rfl
  | s :: ss, t :: ts =>
    match decEq s t, decEqAll ss ts with
    | .isTrue h, .isTrue hs => .isTrue (by rw [h, hs])
    | .isFalse h, _ => .isFalse (by simp [h])
    | _, .isFalse hs => .isFalse (by simp [hs])
  | [], _ :: _ => .isFalse (by simp)
  | _ :: _, [] => .isFalse (by simp)

end

/-- Equality of statements is decided by going through their blocks. -/
instance : DecidableEq Statement := decEq

end Statement

/-- A method: its name, its parameters and its body. -/
structure Method where
  /-- Empty for the entry method. -/
  name : String
  params : List String
  body : List Statement
deriving DecidableEq, Repr

/-- The entry method with this body. -/
def Method.main (body : List Statement) : Method :=
  { name := "", params := [], body }

/-- A program: its entry method and its named methods in the order of the source. -/
structure Program where
  main : Method
  methods : List Method
deriving DecidableEq, Repr

/-- The method of this name: of several, the first. -/
def Program.method? (p : Program) (name : String) : Option Method :=
  p.methods.find? (·.name == name)

end Showtime
