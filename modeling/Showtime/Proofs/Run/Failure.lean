/-
# What a failed instruction leaves behind

An instruction or an assignment that fails has changed no variable: whatever can
fail in it comes before the one change that it makes.

| statement | what can fail | the change |
| --- | --- | --- |
| print | reading the operand, the sink | |
| declaration | reading the operands | binding the name |
| return | reading the operand | |
| call | reading the operands, the call | |
| call with a destination | reading the operands, the call | giving the value to the destination |
| assignment | the fold, finding the target | writing the target |

A call can run loops and other calls before it fails, but it leaves the stack of
its caller as it was however it ends.  So each statement is a row of steps that
leave the variables alone (`Exec.Leaves`), and at most one step behind them that
changes all or nothing (`Exec.AllOrNothing`).
-/

import Showtime.Proofs.Run.Shape
import Showtime.Proofs.Run.Simulation

namespace Showtime

open Eval

namespace Exec

variable {σ α β : Type}

/-! ### Steps -/

/-- A scope that is pushed for a step that leaves the variables is gone after it. -/
theorem Leaves.withScope {parent : Option ScopeRef} {x : ScopeRef → Exec σ α}
    (h : ∀ ref, (x ref).Leaves) : (Exec.withScope parent x).Leaves := by
  intro m r m' hm
  rw [withScope_eq] at hm
  obtain ⟨r₁, m₁, hx, -, rfl⟩ := Outcome.map_eq_finished hm
  obtain ⟨hscopes, hdepth⟩ := h _ _ r₁ m₁ hx
  refine ⟨?_, hdepth⟩
  rw [pop, hscopes, ScopeStack.pop_push]

/-- If the step fails, the variables are as before. -/
def AllOrNothing (x : Exec σ α) : Prop :=
  ∀ m e m', x m = .failed e m' → m.SameVariables m'

/-- A step that never changes a variable does not do so when it fails. -/
theorem Leaves.allOrNothing {x : Exec σ α} (h : x.Leaves) : x.AllOrNothing :=
  fun m e m' hx => h m (.error e) m' hx

/-- A declaration never fails. -/
theorem allOrNothing_declare (scope : ScopeRef) (name : String) (value : Int64) :
    (declare scope name value : Exec σ Unit).AllOrNothing :=
  nofun

/-- Where no scope binds the name, nothing is written. -/
theorem allOrNothing_set (scope : ScopeRef) (name : String) (value : Int64) :
    (set scope name value : Exec σ Unit).AllOrNothing := by
  intro m e m' h
  rw [set] at h
  split at h
  · cases h
  · cases h
    exact ⟨rfl, rfl⟩

/-- Where one step and another fail, one of them does. -/
theorem bind_eq_failed {x : Exec σ α} {f : α → Exec σ β} {m m' : Machine σ} {e : RuntimeError}
    (h : (x >>= f) m = .failed e m') :
    x m = .failed e m' ∨ ∃ a m₁, x m = .done a m₁ ∧ f a m₁ = .failed e m' := by
  cases hx : x m with
  | done a m₁ => exact .inr ⟨a, m₁, rfl, (bind_done hx).symm.trans h⟩
  | failed e₁ m₁ =>
    rw [bind_failed hx] at h
    obtain ⟨rfl, rfl⟩ := Outcome.failed.inj h
    exact .inl rfl
  | exhausted =>
    rw [bind_exhausted hx] at h
    cases h

/-- What comes before the change. -/
theorem AllOrNothing.behind {x : Exec σ α} {f : α → Exec σ β} (hx : x.Leaves)
    (hf : ∀ a, (f a).AllOrNothing) : (x >>= f).AllOrNothing := by
  intro m e m' h
  rcases bind_eq_failed h with hfail | ⟨a, m₁, hdone, hfail⟩
  · exact hx.allOrNothing m e m' hfail
  · exact (hx m (.ok a) m₁ hdone).trans (hf a m₁ e m' hfail)

/-- After the change there is nothing left to do. -/
theorem AllOrNothing.last {x : Exec σ α} (hx : x.AllOrNothing) (g : α → β) :
    (x >>= fun a => Pure.pure (g a)).AllOrNothing := by
  intro m e m' h
  rcases bind_eq_failed h with hfail | ⟨a, m₁, -, hfail⟩
  · exact hx m e m' hfail
  · cases hfail

end Exec

/-! ### Statements -/

namespace Eval

variable {σ : Type} {p : Program} {invoke : Invoke σ}

/-- A destination that is in sight can be written, and any other can be declared. -/
theorem allOrNothing_assignResult (scope : ScopeRef) (name : String) (value : Int64) :
    (assignResult scope name value : Exec σ Unit).AllOrNothing := by
  intro m e m' h
  rw [assignResult] at h
  split_ifs at h
  · exact Exec.allOrNothing_set scope name value m e m' h
  · exact Exec.allOrNothing_declare scope name value m e m' h

/-- Every call leaves the variables of its caller. -/
def InvokeLeaves (invoke : Invoke σ) : Prop :=
  ∀ method values, (invoke method values).Leaves

/-- A method has no access to the variables of its caller. -/
theorem runMethod_leaves [Sink σ] (p : Program) (limit fuel : Nat) :
    InvokeLeaves (runMethod (σ := σ) p limit fuel) := by
  intro method values m r m' h
  obtain ⟨-, hscopes, hdepth⟩ := runMethod_sound fuel h
  exact ⟨hscopes, hdepth⟩

/-- A call leaves the variables of its caller, also where there is nothing to call. -/
theorem call_leaves (h : InvokeLeaves invoke) (name : String) (args : List Value)
    (scope : ScopeRef) : (call p invoke name args scope).Leaves := by
  intro m r m' hm
  rw [call] at hm
  split at hm
  · rw [← Outcome.finished_error, Outcome.finished_inj] at hm
    obtain ⟨-, rfl⟩ := hm
    exact ⟨rfl, rfl⟩
  · exact h _ _ m r m' hm

/-- An assignment changes its target only when all has gone well. -/
theorem runAssignment_allOrNothing (args : List Value) (body : List Statement) (scope : ScopeRef) :
    (runAssignment args body scope : Exec σ Flow).AllOrNothing :=
  .behind (Exec.leaves_lift _) fun name =>
    .behind (.withScope fun child => Exec.leaves_lift fun m => fold m.scopes child body)
      fun value => .last (Exec.allOrNothing_set scope name value) _

/-- An instruction that fails has changed no variable. -/
theorem runInstruction_allOrNothing [Sink σ] (h : InvokeLeaves invoke) (op : Op)
    (args : List Value) (scope : ScopeRef) :
    (runInstruction p invoke op args scope).AllOrNothing := by
  cases op with
  | print =>
    exact .behind (Exec.leaves_lift fun m => printed m.scopes scope args) fun line =>
      .last (Exec.leaves_writeLine line).allOrNothing _
  | declare =>
    exact .behind (Exec.leaves_lift _) fun name => .behind (Exec.leaves_lift _) fun v =>
      .behind (Exec.leaves_resolve scope v) fun value =>
        .last (Exec.allOrNothing_declare scope name value) _
  | giveBack =>
    cases args with
    | nil => exact (Exec.leaves_pure _).allOrNothing
    | cons v rest => exact .last (Exec.leaves_resolve scope v).allOrNothing _
  | call =>
    exact .behind (Exec.leaves_lift _) fun name =>
      .last (call_leaves h name _ scope).allOrNothing _
  | callInto =>
    exact .behind (Exec.leaves_lift _) fun destination => .behind (Exec.leaves_lift _) fun name =>
      .behind (call_leaves h name _ scope) fun value =>
        .last (allOrNothing_assignResult scope destination value) _
  | _ => exact (Exec.leaves_fail _).allOrNothing

end Eval

/-- An instruction, or an assignment with whatever it owns. -/
inductive Statement.Simple : Statement → Prop
  | instruction (op : Op) (args : List Value) : Simple (.expression op args)
  | assignment (args : List Value) (body : List Statement) :
    Simple (.block .assignment args body)

/-- **A failing simple statement changes no variable.**  In whatever state and in
whatever scope it runs, if it fails, by an error of its own, of the sink or of a
call, then all scopes are as before, with their parents and their variables, and as
many calls are active as before. -/
theorem failed_statement_changes_no_variable {σ : Type} [Sink σ] (p : Program)
    (limit callFuel fuel : Nat) (ref : ScopeRef) {s : Statement} (hs : s.Simple)
    {m m' : Machine σ} {e : RuntimeError}
    (h : runStatement p (runMethod p limit callFuel) fuel ref s m = .failed e m') :
    m'.scopes = m.scopes ∧ m'.depth = m.depth := by
  have hsame : m.SameVariables m' := by
    cases hs with
    | instruction op args =>
      rw [runStatement] at h
      exact runInstruction_allOrNothing (runMethod_leaves p limit callFuel) op args ref m e m' h
    | assignment args body =>
      rw [runStatement] at h
      exact runAssignment_allOrNothing args body ref m e m' h
  exact ⟨hsame.scopes, hsame.depth⟩

/-- A method that takes its parameter down to zero and then divides by it. -/
def Program.overdraw : Program where
  main := .main []
  methods := [{
    name := "overdraw"
    params := ["n"]
    body := [
      .block .loop [.var "n"] [
        .expression .declare [.var "t", .int 0],
        .block .assignment [.var "n"] [.expression .firstOperand [.var "t"]]],
      .block .assignment [.var "n"] [.expression .firstOperand [.int 7],
        .expression .divide [.var "n"]]] }]

/-- The scope of a loop in a method, with a variable of the method. -/
def Machine.inLoop : Machine Buffer where
  scopes := ⟨#[{ parent := none, vars := [("x", 2)] }, { parent := some ⟨0⟩, vars := [] }]⟩
  depth := 1
  out := .unbounded

/-- The call is for a destination that no scope binds, and the method fails after it
has gone round its loop. -/
theorem overdraw_changes_no_variable :
    ∃ m', runStatement .overdraw (runMethod .overdraw 5 3) 0 ⟨1⟩
          (.expression .callInto [.var "y", .var "overdraw", .var "x"]) .inLoop =
        .failed .divisionByZero m' ∧
      m'.scopes = Machine.inLoop.scopes ∧ m'.depth = Machine.inLoop.depth := by
  have h : runStatement .overdraw (runMethod .overdraw 5 3) 0 ⟨1⟩
      (.expression .callInto [.var "y", .var "overdraw", .var "x"]) .inLoop =
    .failed .divisionByZero .inLoop := rfl
  exact ⟨_, h, failed_statement_changes_no_variable .overdraw 5 3 0 ⟨1⟩ (.instruction _ _) h⟩

end Showtime
