/-
# What statements do

`runStatements` runs a list of statements in a scope, up to its end or to the
first return.

* A branch of a conditional runs in the scope of the conditional.
* A loop runs in one scope of its own, which all its rounds share.
* An assignment computes its value in a scope of its own and writes it to the
  nearest scope that binds the target.
* A method runs in a scope without a parent that binds its parameters.

Calls nest, and loops go round, as far as a program wants; the fuel bounds both,
the nesting of calls and the rounds of every single loop.  A run that ends
within its fuel ends alike with more.
-/

import Showtime.Run.Exec

namespace Showtime

/-- How a list of statements ends: at its end, or by a return. -/
inductive Flow where
  | next
  | giveBack (value : Int64)
deriving DecidableEq, Repr

/-- The value of a method whose body has ended so. -/
def Flow.value : Flow → Int64
  | next => 0
  | giveBack value => value

namespace Eval

variable {σ : Type} [Sink σ]

/-! ### Operands -/

/-- The operand at a place. -/
def operand (phrase : String) (args : List Value) (index : Nat) : Except RuntimeError Value :=
  match args[index]? with
  | some v => .ok v
  | none => .error (.missingOperand phrase)

/-- The variable at a place, for an instruction that writes to it. -/
def target (phrase : String) (args : List Value) : Except RuntimeError String :=
  match args with
  | [] => .error (.missingOperand phrase)
  | .var name :: _ => .ok name
  | v :: _ => .error (.nonVariableTarget v.kind)

/-- The method name at a place. -/
def methodName (phrase : String) (args : List Value) (index : Nat) : Except RuntimeError String :=
  match args[index]? with
  | none => .error (.missingOperand phrase)
  | some (.var name) => .ok name
  | some v => .error (.typeError "method name" v.kind)

/-- The integers of operands, seen from a scope, in order up to the first that
has none. -/
def resolveAll (scopes : ScopeStack) (scope : ScopeRef) :
    List Value → Except RuntimeError (List Int64)
  | [] => .ok []
  | v :: rest =>
    match scopes.get scope v with
    | .error e => .error e
    | .ok n =>
      match resolveAll scopes scope rest with
      | .error e => .error e
      | .ok ns => .ok (n :: ns)

/-! ### Folds -/

/-- An instruction that is no fold operator stands among the folds. -/
def notAnOperator (op : Op) : RuntimeError :=
  .malformedAssignment (op.text ++ " is not an operator")

/-- Applies a fold operator.  Sums, differences, products and quotients wrap
around; quotients go toward zero. -/
def apply (op : Op) (acc rhs : Int64) : Except RuntimeError Int64 :=
  match op with
  | .add => .ok (acc + rhs)
  | .subtract => .ok (acc - rhs)
  | .multiply => .ok (acc * rhs)
  | .divide => if rhs = 0 then .error .divisionByZero else .ok (acc / rhs)
  | .equalTo => .ok (Integer.ofBool (acc == rhs))
  | .greaterThan => .ok (Integer.ofBool (rhs < acc))
  | .or => .ok (Integer.ofBool (acc != 0 || rhs != 0))
  | .and => .ok (Integer.ofBool (acc != 0 && rhs != 0))
  | op => .error (notAnOperator op)

/-- Applies the folds of an assignment from left to right. -/
def foldFrom (scopes : ScopeStack) (scope : ScopeRef) (acc : Int64) :
    List Statement → Except RuntimeError Int64
  | [] => .ok acc
  | .expression op args :: rest =>
    if op.isFold then do
      let rhs ← scopes.get scope (← operand op.text args 0)
      foldFrom scopes scope (← apply op acc rhs) rest
    else .error (notAnOperator op)
  | .block kind _ _ :: _ => .error (.malformedAssignment ("unexpected " ++ kind.text ++ " block"))

/-- The value of an assignment: a first operand and folds. -/
def fold (scopes : ScopeStack) (scope : ScopeRef) :
    List Statement → Except RuntimeError Int64
  | .expression .firstOperand args :: rest => do
    let seed ← scopes.get scope (← operand Op.firstOperand.text args 0)
    foldFrom scopes scope seed rest
  | _ => .error (.malformedAssignment ("expected " ++ Op.firstOperand.text ++ " first"))

/-- Runs an assignment. -/
def runAssignment (args : List Value) (body : List Statement) (scope : ScopeRef) : Exec σ Flow :=
  do
    let name ← Exec.lift (target BlockKind.assignment.text args)
    let value ← Exec.withScope (some scope) fun child m =>
      Exec.lift (fold m.scopes child body) m
    Exec.set scope name value
    return .next

/-! ### Calls -/

/-- How a method is run once its arguments are known. -/
abbrev Invoke (σ : Type) := Method → List Int64 → Exec σ Int64

/-- The method that a call means, with the values of the arguments. -/
def prepare (p : Program) (scopes : ScopeStack) (scope : ScopeRef) (name : String)
    (args : List Value) : Except RuntimeError (Method × List Int64) :=
  match p.method? name with
  | none => .error (.unknownMethod name)
  | some method =>
    if method.params.length = args.length then
      match resolveAll scopes scope args with
      | .error e => .error e
      | .ok values => .ok (method, values)
    else .error (.arityMismatch name method.params.length args.length)

/-- Calls the method of a name. -/
def call (p : Program) (invoke : Invoke σ) (name : String) (args : List Value)
    (scope : ScopeRef) : Exec σ Int64 := fun m =>
  match prepare p m.scopes scope name args with
  | .error e => .failed e m
  | .ok (method, values) => invoke method values m

/-- Gives the result of a call to its destination: the variable that is in
sight, or else a new one. -/
def assignResult (scope : ScopeRef) (name : String) (value : Int64) : Exec σ Unit := fun m =>
  if m.scopes.contains scope name then Exec.set scope name value m
  else Exec.declare scope name value m

/-! ### Statements -/

/-- The line that a print writes. -/
def printed (scopes : ScopeStack) (scope : ScopeRef) (args : List Value) :
    Except RuntimeError String := do
  match ← operand Op.print.text args 0 with
  | .str s => return s
  | v => return toString (← scopes.get scope v).toInt

/-- Runs an instruction. -/
def runInstruction (p : Program) (invoke : Invoke σ) (op : Op) (args : List Value)
    (scope : ScopeRef) : Exec σ Flow :=
  match op with
  | .print => do
    let line ← fun m => Exec.lift (printed m.scopes scope args) m
    Exec.writeLine line
    return .next
  | .declare => do
    let name ← Exec.lift (target op.text args)
    let value ← Exec.resolve scope (← Exec.lift (operand op.text args 1))
    Exec.declare scope name value
    return .next
  | .giveBack =>
    match args with
    | [] => return .giveBack 0
    | v :: _ => do return .giveBack (← Exec.resolve scope v)
  | .call => do
    let name ← Exec.lift (methodName op.text args 0)
    let _ ← call p invoke name (args.drop 1) scope
    return .next
  | .callInto => do
    let destination ← Exec.lift (target op.text args)
    let name ← Exec.lift (methodName op.text args 1)
    let value ← call p invoke name (args.drop 2) scope
    assignResult scope destination value
    return .next
  | op => Exec.fail (.unknownInstruction op.text)

/-- Goes round a loop while its test is not zero, at most `fuel` times. -/
def iterate (test : Value) (scope : ScopeRef) (body : Exec σ Flow) : Nat → Exec σ Flow
  | 0 => Exec.exhausted
  | fuel + 1 => do
    if (← Exec.resolve scope test) = 0 then return .next
    else
      match ← body with
      | .next => iterate test scope body fuel
      | .giveBack value => return .giveBack value

mutual

/-- Runs a statement. -/
def runStatement (p : Program) (invoke : Invoke σ) (fuel : Nat) (scope : ScopeRef) :
    Statement → Exec σ Flow
  | .expression op args => runInstruction p invoke op args scope
  | .block .assignment args body => runAssignment args body scope
  | .block .conditional args body => do
    let test ← Exec.resolve scope (← Exec.lift (operand BlockKind.conditional.text args 0))
    match body with
    | [.block .trueBranch _ then_] =>
      if test = 0 then return .next else runStatements p invoke fuel scope then_
    | [.block .trueBranch _ then_, .block .falseBranch _ else_] =>
      if test = 0 then runStatements p invoke fuel scope else_
      else runStatements p invoke fuel scope then_
    | _ => Exec.fail .malformedConditional
  | .block .loop args body => do
    let test ← Exec.lift (operand BlockKind.loop.text args 0)
    Exec.withScope (some scope) fun child =>
      iterate test child (runStatements p invoke fuel child body) fuel
  | .block kind _ _ => Exec.fail (.unknownInstruction kind.text)

/-- Runs statements, up to the end or to the first return. -/
def runStatements (p : Program) (invoke : Invoke σ) (fuel : Nat) (scope : ScopeRef) :
    List Statement → Exec σ Flow
  | [] => return .next
  | s :: rest => do
    match ← runStatement p invoke fuel scope s with
    | .next => runStatements p invoke fuel scope rest
    | .giveBack value => return .giveBack value

end

/-- Binds parameters to values in a scope. -/
def bindParams (scope : ScopeRef) : List String → List Int64 → ScopeStack → ScopeStack
  | name :: names, value :: values, st =>
    bindParams scope names values (st.declare scope name value)
  | _, _, st => st

/-- Runs a method on the values of its arguments, with at most `limit` calls
active. -/
def runMethod (p : Program) (limit : Nat) : Nat → Invoke σ
  | 0 => fun _ _ => Exec.exhausted
  | fuel + 1 => fun method values m =>
    if limit ≤ m.depth then .failed (.callDepthExceeded limit) m
    else
      Exec.withCall (Exec.withScope none fun scope m =>
        let { scopes, depth, out } := m
        match runStatements p (runMethod p limit fuel) fuel scope method.body
          { scopes := bindParams scope method.params values scopes, depth, out } with
        | .done flow m => .done flow.value m
        | .failed e m => .failed e m
        | .exhausted => .exhausted) m

end Eval
end Showtime
