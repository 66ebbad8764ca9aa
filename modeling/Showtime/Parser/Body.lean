/-
# Statements being read

A body is a list of statements that is still open: the statements that are
complete, the blocks around the point of reading, and how far the current
statement has got.  `Body.shift` takes one more token.

Two forms of statement have no closing mark: a call takes arguments as long as
there are any, and a return takes an operand or none.  Such a statement is
complete when something else follows; `Body.settle` completes it.
-/

import Showtime.Program.Basic
import Showtime.Token.Basic

namespace Showtime
namespace Parser

/-! ### Operands -/

/-- The name in a variable token. -/
def name? : Token → Option String
  | .var name => some name
  | _ => none

/-- An integer, or a truth value as the integer that it stands for. -/
def literal? : Token → Option Value
  | .int n => some (.int n)
  | .truth b => some (.ofBool b)
  | _ => none

/-- A literal or a variable. -/
def operand? : Token → Option Value
  | .var name => some (.var name)
  | t => literal? t

/-- An operand or a string. -/
def printable? : Token → Option Value
  | .str s => some (.str s)
  | t => operand? t

/-- The fold operator of a phrase. -/
def foldOf? : Phrase → Option Op
  | .add => some .add
  | .subtract => some .subtract
  | .multiply => some .multiply
  | .divide => some .divide
  | .equalTo => some .equalTo
  | .greaterThan => some .greaterThan
  | .or => some .or
  | .and => some .and
  | _ => none

/-! ### How far a statement has got -/

/-- How far the current statement has got, with the parts that were read.  Lists
of parts have the latest first. -/
inductive Slot where
  /-- No statement is begun. -/
  | ready
  | print
  | declare
  | declareName (name : String)
  | declareValue (name : String)
  | assign
  | assignName (name : String)
  | assignFirst (name : String)
  /-- A fold operator or the end of the assignment comes next. -/
  | fold (name : String) (folds : List Statement)
  | foldOperand (name : String) (folds : List Statement) (op : Op)
  | branch
  | loop
  | call
  | callInto
  /-- The method name comes next, or the phrase of a call before it. -/
  | callIntoName (destination : String)
  | callIntoMethod (destination : String)
  /-- Complete, unless a further argument comes. -/
  | arguments (op : Op) (args : List Value)
  /-- Complete, unless the operand comes. -/
  | giveBack
deriving DecidableEq, Repr

/-- The slot that an opening phrase leads to. -/
def opened? : Phrase → Option Slot
  | .print => some .print
  | .declare => some .declare
  | .assign => some .assign
  | .branch => some .branch
  | .loop => some .loop
  | .call => some .call
  | .callInto => some .callInto
  | .giveBack => some .giveBack
  | _ => none

/-- A block around the point of reading, with the statements before it in its
own surroundings, latest first. -/
inductive Frame where
  | trueBranch (test : Value) (before : List Statement)
  | falseBranch (test : Value) (then_ : List Statement) (before : List Statement)
  | loop (test : Value) (before : List Statement)
deriving DecidableEq, Repr

/-- A list of statements that is still open. -/
structure Body where
  /-- The blocks around the point of reading, innermost first. -/
  frames : List Frame
  /-- The complete statements of the innermost block, latest first. -/
  done : List Statement
  slot : Slot
deriving DecidableEq, Repr

/-! ### The statements that are built -/

/-- An assignment with its target, first operand and folds. -/
def assignment (name : String) (statements : List Statement) : Statement :=
  .block .assignment [.var name] statements

/-- A conditional with its test and branches. -/
def conditional (test : Value) (then_ : List Statement) : Option (List Statement) → Statement
  | none => .block .conditional [test] [.block .trueBranch [] then_]
  | some else_ =>
    .block .conditional [test] [.block .trueBranch [] then_, .block .falseBranch [] else_]

namespace Body

/-- A body with nothing read. -/
def empty : Body :=
  { frames := [], done := [], slot := .ready }

/-- Adds a complete statement. -/
def push (b : Body) (s : Statement) : Body :=
  { b with done := s :: b.done, slot := .ready }

/-- Opens a block. -/
def enter (b : Body) (f : Frame) : Body :=
  { frames := f :: b.frames, done := [], slot := .ready }

/-- Completes a statement that needs no more tokens. -/
def settle (b : Body) : Body :=
  match b.slot with
  | .arguments op args => b.push (.expression op args.reverse)
  | .giveBack => b.push (.expression .giveBack [])
  | _ => b

/-- Takes a phrase where a statement can begin or a block can end. -/
def shiftReady (b : Body) (p : Phrase) : Option Body :=
  match opened? p, p, b.frames with
  | some slot, _, _ => some { b with slot }
  | none, .otherwise, .trueBranch test before :: frames =>
    some { frames := .falseBranch test b.done.reverse before :: frames, done := [], slot := .ready }
  | none, .branchEnd, .trueBranch test before :: frames =>
    some (push { b with frames, done := before } (conditional test b.done.reverse none))
  | none, .branchEnd, .falseBranch test then_ before :: frames =>
    some (push { b with frames, done := before } (conditional test then_ (some b.done.reverse)))
  | none, .loopEnd, .loop test before :: frames =>
    some (push { b with frames, done := before } (.block .loop [test] b.done.reverse))
  | _, _, _ => none

/-- Takes a token that continues no statement. -/
def shiftNext (b : Body) : Token → Option Body
  | .phrase p => b.settle.shiftReady p
  | _ => none

/-- Takes the phrase `p` and nothing else. -/
def expect (b : Body) (p : Phrase) (slot : Slot) (t : Token) : Option Body :=
  if t = .phrase p then some { b with slot } else none

/-- Takes one more token. -/
def shift (b : Body) (t : Token) : Option Body :=
  match b.slot with
  | .ready => b.shiftNext t
  | .print => (printable? t).map fun v => b.push (.expression .print [v])
  | .declare => (name? t).map fun x => { b with slot := .declareName x }
  | .declareName x => b.expect .initialValue (.declareValue x) t
  | .declareValue x => (literal? t).map fun v => b.push (.expression .declare [.var x, v])
  | .assign => (name? t).map fun x => { b with slot := .assignName x }
  | .assignName x => b.expect .firstOperand (.assignFirst x) t
  | .assignFirst x =>
    (operand? t).map fun v => { b with slot := .fold x [.expression .firstOperand [v]] }
  | .fold x folds =>
    match t with
    | .phrase .assignEnd => some (b.push (assignment x folds.reverse))
    | .phrase p => (foldOf? p).map fun op => { b with slot := .foldOperand x folds op }
    | _ => none
  | .foldOperand x folds op =>
    (operand? t).map fun v => { b with slot := .fold x (.expression op [v] :: folds) }
  | .branch => (operand? t).map fun v => b.enter (.trueBranch v b.done)
  | .loop => (operand? t).map fun v => b.enter (.loop v b.done)
  | .call => (name? t).map fun x => { b with slot := .arguments .call [.var x] }
  | .callInto => (name? t).map fun x => { b with slot := .callIntoName x }
  | .callIntoName x =>
    match t with
    | .phrase .call => some { b with slot := .callIntoMethod x }
    | t => (name? t).map fun m => { b with slot := .arguments .callInto [.var m, .var x] }
  | .callIntoMethod x =>
    (name? t).map fun m => { b with slot := .arguments .callInto [.var m, .var x] }
  | .arguments op args =>
    match operand? t with
    | some v => some { b with slot := .arguments op (v :: args) }
    | none => b.shiftNext t
  | .giveBack =>
    match operand? t with
    | some v => some (b.push (.expression .giveBack [v]))
    | none => b.shiftNext t

/-- The statements, if the body can end here. -/
def close? (b : Body) : Option (List Statement) :=
  match b.settle with
  | { frames := [], done, slot := .ready } => some done.reverse
  | _ => none

end Body
end Parser
end Showtime
