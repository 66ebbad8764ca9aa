/-
# Steps of a run

A step changes the state of a run and then gives a value, fails, or has run out
of fuel.  The last is not a way for a program to end: it says that the fuel was
too little to find out.
-/

import Showtime.Run.Scope
import Showtime.Run.Sink

namespace Showtime

/-- The state of a run: its scopes, how many calls are active, and its output. -/
structure Machine (σ : Type) where
  scopes : ScopeStack
  depth : Nat
  out : σ

/-- How a step ends. -/
inductive Outcome (σ α : Type) where
  | done (value : α) (state : Machine σ)
  | failed (error : RuntimeError) (state : Machine σ)
  /-- The fuel did not suffice. -/
  | exhausted

/-- A step of a run. -/
def Exec (σ α : Type) : Type := Machine σ → Outcome σ α

namespace Exec

variable {σ α β : Type}

/-- Gives a value and changes nothing. -/
@[always_inline, inline]
def pure (a : α) : Exec σ α := fun m => .done a m

/-- One step, and then a step that depends on its value. -/
@[always_inline, inline]
def bind (x : Exec σ α) (f : α → Exec σ β) : Exec σ β := fun m =>
  match x m with
  | .done a m => f a m
  | .failed e m => .failed e m
  | .exhausted => .exhausted

/-- Steps come in sequence: a failure, or the end of the fuel, ends it. -/
@[always_inline]
instance : Monad (Exec σ) where
  pure := pure
  bind := bind

/-- Fails and changes nothing. -/
@[always_inline, inline]
def fail (e : RuntimeError) : Exec σ α := fun m => .failed e m

/-- Gives the value of a computation that cannot change the state. -/
@[always_inline, inline]
def lift (x : Except RuntimeError α) : Exec σ α := fun m =>
  match x with
  | .ok a => .done a m
  | .error e => .failed e m

/-- Runs out of fuel. -/
@[always_inline, inline]
def exhausted : Exec σ α := fun _ => .exhausted

/-- The integer of an operand, seen from a scope. -/
def resolve (scope : ScopeRef) (v : Value) : Exec σ Int64 := fun m =>
  match m.scopes.get scope v with
  | .ok n => .done n m
  | .error e => .failed e m

/-- Binds a name in a scope. -/
def declare (scope : ScopeRef) (name : String) (value : Int64) : Exec σ Unit := fun m =>
  let { scopes, depth, out } := m
  .done () { scopes := scopes.declare scope name value, depth, out }

/-- Changes the value of a name. -/
def set (scope : ScopeRef) (name : String) (value : Int64) : Exec σ Unit := fun m =>
  let { scopes, depth, out } := m
  match scopes.set scope name value with
  | .ok scopes => .done () { scopes, depth, out }
  | .error e => .failed e { scopes, depth, out }

/-- Writes a line. -/
def writeLine [Sink σ] (text : String) : Exec σ Unit := fun m =>
  let { scopes, depth, out } := m
  match Sink.write out (text ++ "\n").toUTF8 with
  | (none, out) => .done () { scopes, depth, out }
  | (some reason, out) => .failed (.io reason) { scopes, depth, out }

/-- Discards a scope. -/
def pop (scope : ScopeRef) (m : Machine σ) : Machine σ :=
  let { scopes, depth, out } := m
  { scopes := scopes.pop scope, depth, out }

/-- A step in a fresh scope, which is discarded afterwards also when the step
fails. -/
@[always_inline, inline]
def withScope (parent : Option ScopeRef) (x : ScopeRef → Exec σ α) : Exec σ α := fun m =>
  let { scopes, depth, out } := m
  let child := scopes.next
  match x child { scopes := scopes.push parent, depth, out } with
  | .done a m => .done a (pop child m)
  | .failed e m => .failed e (pop child m)
  | .exhausted => .exhausted

/-- A step inside a call: one more call is active during it. -/
@[always_inline, inline]
def withCall (x : Exec σ α) : Exec σ α := fun m =>
  match x { m with depth := m.depth + 1 } with
  | .done a m => .done a { m with depth := m.depth - 1 }
  | .failed e m => .failed e { m with depth := m.depth - 1 }
  | .exhausted => .exhausted

end Exec
end Showtime
