/-
# Scopes

The variables of a run live in scopes, and a scope may have a parent in which
names are looked up that it does not bind itself.  The scopes of a run form a
stack, kept as one array, and a scope is known by its place there.  Discarding a
scope cuts the array short.

| operation | effect |
| --- | --- |
| `push` | adds a scope without bindings and gives its place |
| `pop` | discards a scope and all that came after it |
| `declare` | binds a name in the scope itself |
| `lookup` | the value in the nearest scope that binds the name |
| `set` | changes the value in the nearest scope that binds the name |
-/

import Showtime.Program.Basic
import Showtime.Run.Error

namespace Showtime

/-! ### Bindings -/

/-- The names of one scope with their values, each name once. -/
abbrev Bindings := List (String × Int64)

/-- Binds a name, in its old place if it has one. -/
def Bindings.insert (name : String) (value : Int64) : Bindings → Bindings
  | [] => [(name, value)]
  | (key, old) :: rest =>
    if key = name then (name, value) :: rest else (key, old) :: insert name value rest

/-- The value of a name. -/
def Bindings.find? (name : String) : Bindings → Option Int64
  | [] => none
  | (key, value) :: rest => if key = name then some value else find? name rest

/-- A new binding is found under its name, and every other name as before. -/
@[simp]
theorem Bindings.find?_insert (vars : Bindings) (name other : String) (value : Int64) :
    Bindings.find? other (Bindings.insert name value vars) =
      if name = other then some value else Bindings.find? other vars := by
  induction vars with
  | nil => simp [insert, find?]
  | cons head rest ih =>
    obtain ⟨key, old⟩ := head
    simp only [insert]
    split
    · subst_vars
      simp only [find?]
      split <;> rfl
    · simp only [find?, ih]
      split <;> split <;> simp_all

/-! ### The stack -/

/-- The place of a scope in the stack. -/
structure ScopeRef where
  index : Nat
deriving DecidableEq, Repr

/-- One scope. -/
structure Scope where
  /-- `none` for the scope of a method. -/
  parent : Option ScopeRef
  vars : Bindings
deriving DecidableEq, Repr

/-- All scopes of a run, each behind its parent. -/
structure ScopeStack where
  scopes : Array Scope
deriving DecidableEq, Repr

namespace ScopeStack

/-- No scopes. -/
def empty : ScopeStack := ⟨#[]⟩

/-- The number of scopes. -/
def size (st : ScopeStack) : Nat := st.scopes.size

/-- The place that the next scope gets. -/
def next (st : ScopeStack) : ScopeRef := ⟨st.size⟩

/-- Adds a scope without bindings, at `next`.  Without a parent it sees
nothing outside itself. -/
def push (st : ScopeStack) (parent : Option ScopeRef) : ScopeStack :=
  ⟨st.scopes.push { parent, vars := [] }⟩

/-- Discards a scope and all that came after it. -/
def pop (st : ScopeStack) (ref : ScopeRef) : ScopeStack :=
  ⟨st.scopes.shrink ref.index⟩

/-- Binds a name in a scope; in a scope that is gone nothing happens. -/
def declare (st : ScopeStack) (ref : ScopeRef) (name : String) (value : Int64) : ScopeStack :=
  ⟨st.scopes.modify ref.index fun s => { s with vars := Bindings.insert name value s.vars }⟩

/-- The nearest scope that binds a name, among the first `steps` scopes of the
chain that starts at `ref`. -/
def ownerWithin (st : ScopeStack) (name : String) : Nat → ScopeRef → Option ScopeRef
  | 0, _ => none
  | steps + 1, ref =>
    match st.scopes[ref.index]? with
    | none => none
    | some s =>
      if (Bindings.find? name s.vars).isSome then some ref
      else match s.parent with
        | none => none
        | some parent => st.ownerWithin name steps parent

/-- The nearest scope that binds a name.  A chain has no more scopes than the
stack, since parents come first. -/
def owner (st : ScopeStack) (ref : ScopeRef) (name : String) : Option ScopeRef :=
  st.ownerWithin name st.size ref

/-- The value of a name, seen from a scope. -/
def lookup (st : ScopeStack) (ref : ScopeRef) (name : String) : Option Int64 := do
  let owner ← st.owner ref name
  let scope ← st.scopes[owner.index]?
  Bindings.find? name scope.vars

/-- A name has a value, seen from a scope. -/
def contains (st : ScopeStack) (ref : ScopeRef) (name : String) : Bool :=
  (st.owner ref name).isSome

/-- The integer of an operand, seen from a scope. -/
def get (st : ScopeStack) (ref : ScopeRef) : Value → Except RuntimeError Int64
  | .int n => .ok n
  | .var name =>
    match st.lookup ref name with
    | some n => .ok n
    | none => .error (.undefinedVariable name)
  | .str _ => .error (.typeError "integer" "string")

/-- Changes the value of a name in the nearest scope that binds it; a name that
no scope binds stays unbound. -/
@[inline]
def set (st : ScopeStack) (ref : ScopeRef) (name : String) (value : Int64) :
    Except RuntimeError ScopeStack :=
  match st.owner ref name with
  | some owner => .ok (st.declare owner name value)
  | none => .error (.undefinedVariable name)

end ScopeStack
end Showtime
