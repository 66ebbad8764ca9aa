/-
# Runs that could crash

Some operations have a result only within limits: a list can be cut at a place that
is not behind its end, a stack can be read where it has a scope, a divisor is not
zero, a result fits into 64 bits, and the count of active calls goes neither below
zero nor above the limit.  A strict step looks at none of this beforehand.  It uses
these operations as they are, and outside of their limits it crashes.

| operation | used for | crashes |
| --- | --- | --- |
| `Strict.slice` | the arguments of a call | behind the end of the operands |
| `Strict.scopeAt` | the scope that a search has found | where there is no scope |
| `Strict.compute` | the operators of an assignment | at a zero divisor, out of range |
| `Strict.countIn` | the start of a call | above the limit |
| `Strict.countOut` | the end of a call | at zero |

The strict steps of this module do what those of a run do, with these operations in
the places where they are needed.  `Strict.ofExec` makes a strict step of one that
needs none of them.
-/

import Showtime.Proofs.Run.Assignment

namespace Showtime

open Eval

/-- An operation was used outside of its limits. -/
inductive Crash where
  /-- A list was cut behind its end. -/
  | slice (length start : Nat)
  /-- A stack was read where it has no scope. -/
  | index (size place : Nat)
  | zeroDivisor
  /-- A number does not fit into 64 bits. -/
  | overflow (n : Int)
  /-- More calls were counted than may be active. -/
  | tooManyCalls (limit : Nat)
  /-- A call was discounted when none was active. -/
  | noCall
deriving DecidableEq, Repr

/-- A step that may crash. -/
def Strict (σ α : Type) : Type := Machine σ → Except Crash (Outcome σ α)

namespace Strict

variable {σ α β : Type}

/-- A step without operations that can crash. -/
def ofExec (x : Exec σ α) : Strict σ α := fun m => .ok (x m)

/-- One step, and then a step that depends on its value. -/
def bind (x : Strict σ α) (f : α → Strict σ β) : Strict σ β := fun m =>
  match x m with
  | .ok (.done a m) => f a m
  | .ok (.failed e m) => .ok (.failed e m)
  | .ok .exhausted => .ok .exhausted
  | .error c => .error c

/-- Strict steps come in sequence: a crash ends it. -/
instance : Monad (Strict σ) where
  pure a := ofExec (Exec.pure a)
  bind := bind

/-- One step and, however it ends, another. -/
def andFinally (x : Strict σ α) (last : Strict σ Unit) : Strict σ α := fun m =>
  match x m with
  | .ok (.done a m) => (last >>= fun _ => pure a) m
  | .ok (.failed e m) => (last >>= fun _ => ofExec (Exec.fail e)) m
  | .ok .exhausted => .ok .exhausted
  | .error c => .error c

/-- A step that depends on the scopes. -/
def withScopes (x : ScopeStack → Strict σ α) : Strict σ α := fun m => x m.scopes m

/-! ### Operations with limits -/

/-- Crashes. -/
def crash (c : Crash) : Strict σ α := fun _ => .error c

/-- The values from a place on, which may be the end. -/
def slice (args : List Value) (start : Nat) : Strict σ (List Value) :=
  if start ≤ args.length then pure (args.drop start) else crash (.slice args.length start)

/-- The scope at a place. -/
def scopeAt (ref : ScopeRef) : Strict σ Scope :=
  withScopes fun st =>
    match st.at? ref with
    | some s => pure s
    | none => crash (.index st.size ref.index)

/-- The integer of a number. -/
def word (n : Int) : Strict σ Int64 :=
  match Integer.ofInt? n with
  | some n => pure n
  | none => crash (.overflow n)

/-- The result of a fold operator, wrapped around. -/
def compute (op : Op) (acc rhs : Int64) : Strict σ Int64 :=
  if op = .divide ∧ rhs = 0 then crash .zeroDivisor
  else word (Integer.wrap (op.exact acc.toInt rhs.toInt))

/-- Counts a call that starts. -/
def countIn (limit : Nat) : Strict σ Unit := fun m =>
  if m.depth < limit then .ok (.done () { m with depth := m.depth + 1 })
  else .error (.tooManyCalls limit)

/-- Discounts a call that has ended. -/
def countOut : Strict σ Unit := fun m =>
  match m.depth with
  | 0 => .error .noCall
  | depth + 1 => .ok (.done () { m with depth })

/-! ### Variables -/

/-- The value of a name, seen from a scope. -/
def lookup (scope : ScopeRef) (name : String) : Strict σ (Option Int64) :=
  withScopes fun st =>
    match st.owner scope name with
    | none => pure none
    | some owner => do
      let s ← scopeAt owner
      return Bindings.find? name s.vars

/-- The integer of an operand, seen from a scope. -/
def resolve (scope : ScopeRef) : Value → Strict σ Int64
  | .int n => pure n
  | .var name => do
    match ← lookup scope name with
    | some n => return n
    | none => ofExec (Exec.fail (.undefinedVariable name))
  | .str _ => ofExec (Exec.fail (.typeError "integer" "string"))

/-- The integers of operands, in order up to the first that has none. -/
def resolveAll (scope : ScopeRef) : List Value → Strict σ (List Int64)
  | [] => pure []
  | v :: rest => do
    let n ← resolve scope v
    let ns ← resolveAll scope rest
    return n :: ns

/-- Changes the value of a name. -/
def set (scope : ScopeRef) (name : String) (value : Int64) : Strict σ Unit :=
  withScopes fun st =>
    match st.owner scope name with
    | none => ofExec (Exec.fail (.undefinedVariable name))
    | some owner => do
      let _ ← scopeAt owner
      ofExec (Exec.declare owner name value)

/-- A step in a fresh scope, which is discarded afterwards. -/
def withScope (parent : Option ScopeRef) (x : ScopeRef → Strict σ α) : Strict σ α := fun m =>
  andFinally (x m.scopes.next) (ofExec fun m' => .done () (Exec.pop m.scopes.next m'))
    { m with scopes := m.scopes.push parent }

/-! ### Statements -/

/-- Applies a fold operator. -/
def apply (op : Op) (acc rhs : Int64) : Strict σ Int64 :=
  if op.isFold then
    if op = .divide ∧ rhs = 0 then ofExec (Exec.fail .divisionByZero) else compute op acc rhs
  else ofExec (Exec.fail (notAnOperator op))

/-- Applies the folds of an assignment from left to right. -/
def foldFrom (scope : ScopeRef) (acc : Int64) : List Statement → Strict σ Int64
  | [] => pure acc
  | .expression op args :: rest =>
    if op.isFold then do
      let rhs ← resolve scope (← ofExec (Exec.lift (operand op.text args 0)))
      foldFrom scope (← apply op acc rhs) rest
    else ofExec (Exec.fail (notAnOperator op))
  | .block kind _ _ :: _ =>
    ofExec (Exec.fail (.malformedAssignment ("unexpected " ++ kind.text ++ " block")))

/-- The value of an assignment: a first operand and folds. -/
def fold (scope : ScopeRef) : List Statement → Strict σ Int64
  | .expression .firstOperand args :: rest => do
    let seed ← resolve scope (← ofExec (Exec.lift (operand Op.firstOperand.text args 0)))
    foldFrom scope seed rest
  | _ => ofExec (Exec.fail (.malformedAssignment ("expected " ++ Op.firstOperand.text ++ " first")))

/-- Runs an assignment. -/
def runAssignment (args : List Value) (body : List Statement) (scope : ScopeRef) :
    Strict σ Flow := do
  let name ← ofExec (Exec.lift (target BlockKind.assignment.text args))
  let value ← withScope (some scope) fun child => fold child body
  set scope name value
  return .next

/-- How a method is run once its arguments are known. -/
abbrev Invoke (σ : Type) := Method → List Int64 → Strict σ Int64

/-- Calls the method of a name. -/
def call (p : Program) (invoke : Strict.Invoke σ) (name : String) (args : List Value)
    (scope : ScopeRef) : Strict σ Int64 :=
  match p.method? name with
  | none => ofExec (Exec.fail (.unknownMethod name))
  | some method =>
    if method.params.length = args.length then do
      let values ← resolveAll scope args
      invoke method values
    else ofExec (Exec.fail (.arityMismatch name method.params.length args.length))

/-- Gives the result of a call to its destination. -/
def assignResult (scope : ScopeRef) (name : String) (value : Int64) : Strict σ Unit :=
  withScopes fun st =>
    if st.contains scope name then set scope name value
    else ofExec (Exec.declare scope name value)

/-- The line that a print writes. -/
def printed (scope : ScopeRef) (args : List Value) : Strict σ String := do
  match ← ofExec (Exec.lift (operand Op.print.text args 0)) with
  | .str s => return s
  | v => return toString (← resolve scope v).toInt

variable [Sink σ]

/-- Runs an instruction. -/
def runInstruction (p : Program) (invoke : Strict.Invoke σ) (op : Op) (args : List Value)
    (scope : ScopeRef) : Strict σ Flow :=
  match op with
  | .print => do
    let line ← printed scope args
    ofExec (Exec.writeLine line)
    return .next
  | .declare => do
    let name ← ofExec (Exec.lift (target op.text args))
    let value ← resolve scope (← ofExec (Exec.lift (operand op.text args 1)))
    ofExec (Exec.declare scope name value)
    return .next
  | .giveBack =>
    match args with
    | [] => return .giveBack 0
    | v :: _ => do return .giveBack (← resolve scope v)
  | .call => do
    let name ← ofExec (Exec.lift (methodName op.text args 0))
    let _ ← call p invoke name (← slice args 1) scope
    return .next
  | .callInto => do
    let destination ← ofExec (Exec.lift (target op.text args))
    let name ← ofExec (Exec.lift (methodName op.text args 1))
    let value ← call p invoke name (← slice args 2) scope
    assignResult scope destination value
    return .next
  | op => ofExec (Exec.fail (.unknownInstruction op.text))

/-- One step and, if it falls through, another. -/
def andThen (x y : Strict σ Flow) : Strict σ Flow := do
  match ← x with
  | .next => y
  | .giveBack value => return .giveBack value

/-- Goes round a loop while its test is not zero, at most `fuel` times. -/
def iterate (test : Value) (scope : ScopeRef) (body : Strict σ Flow) : Nat → Strict σ Flow
  | 0 => ofExec Exec.exhausted
  | fuel + 1 => do
    if (← resolve scope test) = 0 then return .next
    else andThen body (iterate test scope body fuel)

mutual

/-- Runs a statement. -/
def runStatement (p : Program) (invoke : Strict.Invoke σ) (fuel : Nat) (scope : ScopeRef) :
    Statement → Strict σ Flow
  | .expression op args => runInstruction p invoke op args scope
  | .block .assignment args body => runAssignment args body scope
  | .block .conditional args body => do
    let v ← ofExec (Exec.lift (operand BlockKind.conditional.text args 0))
    let test ← resolve scope v
    match body with
    | [.block .trueBranch _ then_] =>
      if test = 0 then return .next else runStatements p invoke fuel scope then_
    | [.block .trueBranch _ then_, .block .falseBranch _ else_] =>
      if test = 0 then runStatements p invoke fuel scope else_
      else runStatements p invoke fuel scope then_
    | _ => ofExec (Exec.fail .malformedConditional)
  | .block .loop args body => do
    let test ← ofExec (Exec.lift (operand BlockKind.loop.text args 0))
    withScope (some scope) fun child =>
      iterate test child (runStatements p invoke fuel child body) fuel
  | .block kind _ _ => ofExec (Exec.fail (.unknownInstruction kind.text))

/-- Runs statements, up to the end or to the first return. -/
def runStatements (p : Program) (invoke : Strict.Invoke σ) (fuel : Nat) (scope : ScopeRef) :
    List Statement → Strict σ Flow
  | [] => return .next
  | s :: rest =>
    andThen (runStatement p invoke fuel scope s) (runStatements p invoke fuel scope rest)

end

/-- Runs a method on the values of its arguments, with at most `limit` calls active. -/
def runMethod (p : Program) (limit : Nat) : Nat → Strict.Invoke σ
  | 0 => fun _ _ => ofExec Exec.exhausted
  | fuel + 1 => fun method values m =>
    if limit ≤ m.depth then .ok (.failed (.callDepthExceeded limit) m)
    else
      (countIn limit >>= fun _ =>
        andFinally (withScope none fun scope m =>
          (do
            let flow ← runStatements p (runMethod p limit fuel) fuel scope method.body
            return flow.value : Strict σ Int64)
            { m with scopes := bindParams scope method.params values m.scopes }) countOut) m

/-- Executes the entry method in a scope of its own. -/
def runEntry (job : Job) (fuel : Nat) : Strict σ Flow :=
  withScope none fun root =>
    runStatements job.program (runMethod job.program job.limit fuel) fuel root
      job.program.main.body

/-- Runs the program once. -/
def run {τ : Type} [Sink τ] (job : Job) (fuel : Nat) (i : Interpreter σ τ) :
    Except Crash (Option (Except RuntimeError Unit × Interpreter σ τ)) :=
  match runEntry job fuel i.machine with
  | .ok (.done _ m) => .ok (some (Interpreter.conclude none m i.diag))
  | .ok (.failed e m) => .ok (some (Interpreter.conclude (some e) m i.diag))
  | .ok .exhausted => .ok none
  | .error c => .error c

end Strict
end Showtime
