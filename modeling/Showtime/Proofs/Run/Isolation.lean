/-
# Calls and their callers

A method starts on a scope without a parent, so nothing that its caller has in
scope can be seen from it or be changed by it.  A call is decided by the method,
the values of its arguments, the number of active calls and the output, and it
leaves the stack of its caller alone (`runMethod_finished_iff`).

Two callers with different stacks therefore get the same from a call, and keep
what they have (`call_isolated_from_caller`).
-/

import Showtime.Proofs.Run.Simulation

namespace Showtime

open Eval

variable {σ : Type} [Sink σ] {p : Program} {limit : Nat}

namespace Eval

/-- A call ends in one way, whatever fuel it takes. -/
theorem runMethod_unique {method : Method} {values : List Int64} {m m₁ m₂ : Machine σ}
    {r₁ r₂ : Except RuntimeError Int64} {fuel₁ fuel₂ : Nat}
    (h₁ : runMethod p limit fuel₁ method values m = .finished r₁ m₁)
    (h₂ : runMethod p limit fuel₂ method values m = .finished r₂ m₂) : r₁ = r₂ ∧ m₁ = m₂ := by
  have h₁ := (runMethod_extended limit (le_max_left fuel₁ fuel₂) method values).finished h₁
  have h₂ := (runMethod_extended limit (le_max_right fuel₁ fuel₂) method values).finished h₂
  exact Outcome.finished_inj.1 (h₁.symm.trans h₂)

/-- The value of a call can be told from how the call ends. -/
theorem map_giveBack_injective :
    Function.Injective (Except.map (ε := RuntimeError) Flow.giveBack) := by
  intro r r' h
  cases r <;> cases r' <;> cases h <;> rfl

/-- A run of a method is finished by a machine with any stack. -/
theorem exists_runMethod_of_runs {depth : Nat} {method : Method} {values : List Int64}
    {w w' : World σ} {r : Except RuntimeError Int64}
    (h : Runs p limit depth (.call method values) w (r.map .giveBack) w') (st : ScopeStack) :
    ∃ fuel, runMethod p limit fuel method values { scopes := st, depth, out := w.out } =
      .finished r { scopes := st, depth, out := w'.out } := by
  -- the scope of the caller plays no part, so any place will do
  have hperform : ∃ fuel, perform p limit fuel st.next (.call method values)
      { scopes := st, depth, out := w.out } =
        .finished (r.map .giveBack) { scopes := st, depth, out := w'.out } := by
    generalize hr : r.map Flow.giveBack = r' at h
    cases h with
    | tooDeep hle =>
      refine ⟨1, ?_⟩
      rw [perform_call, runMethod_succ_of_le 0 method values hle]
      rfl
    | call hlt hbody => exact call_realized hlt (realized hbody) st st.next
  obtain ⟨fuel, hrun⟩ := hperform
  rw [perform_call] at hrun
  obtain ⟨r', m', hrun, hr, rfl⟩ := Outcome.map_eq_finished hrun
  exact ⟨fuel, map_giveBack_injective hr ▸ hrun⟩

/-- **A call runs as the plain semantics says, on any stack.**  Afterwards the
stack and the number of active calls are as before. -/
theorem runMethod_finished_iff {method : Method} {values : List Int64} {m m' : Machine σ}
    {r : Except RuntimeError Int64} :
    (∃ fuel, runMethod p limit fuel method values m = .finished r m') ↔
      ∃ out, Runs p limit m.depth (.call method values) ⟨.root ∅, m.out⟩ (r.map .giveBack)
        ⟨.root ∅, out⟩ ∧ m' = { m with out := out } := by
  constructor
  · rintro ⟨fuel, h⟩
    obtain ⟨hruns, hscopes, hdepth⟩ := runMethod_sound fuel h
    refine ⟨m'.out, hruns (.root ∅), ?_⟩
    rw [← hscopes, ← hdepth]
  · rintro ⟨out, hruns, rfl⟩
    exact exists_runMethod_of_runs hruns m.scopes

end Eval

/-- **A call is isolated from its caller.**  Take two callers with any stacks, as
many active calls and the same output.  The call ends for one if and only if it
ends for the other; then both get the same value or error and the same output,
and each has its own stack as it was before, whether the call has failed or not. -/
theorem call_isolated_from_caller (p : Program) (limit : Nat) (method : Method)
    (values : List Int64) (depth : Nat) (out : σ) (st₁ st₂ : ScopeStack) :
    ((∃ fuel r m, runMethod p limit fuel method values { scopes := st₁, depth, out } =
        .finished r m) ↔
      ∃ fuel r m, runMethod p limit fuel method values { scopes := st₂, depth, out } =
        .finished r m) ∧
    ∀ fuel₁ fuel₂ r₁ r₂ m₁ m₂,
      runMethod p limit fuel₁ method values { scopes := st₁, depth, out } = .finished r₁ m₁ →
      runMethod p limit fuel₂ method values { scopes := st₂, depth, out } = .finished r₂ m₂ →
        r₁ = r₂ ∧ m₁.out = m₂.out ∧ (m₁.scopes = st₁ ∧ m₁.depth = depth) ∧
          m₂.scopes = st₂ ∧ m₂.depth = depth := by
  -- what one caller sees can be seen by the other
  have htransfer {st st' : ScopeStack} {fuel : Nat} {r : Except RuntimeError Int64}
      {m : Machine σ}
      (h : runMethod p limit fuel method values { scopes := st, depth, out } = .finished r m) :
      ∃ fuel', runMethod p limit fuel' method values { scopes := st', depth, out } =
        .finished r { scopes := st', depth, out := m.out } := by
    obtain ⟨out', hruns, rfl⟩ := runMethod_finished_iff.1 ⟨fuel, h⟩
    exact runMethod_finished_iff.2 ⟨out', hruns, rfl⟩
  refine ⟨⟨?_, ?_⟩, ?_⟩
  · rintro ⟨fuel, r, m, h⟩
    obtain ⟨fuel', h'⟩ := htransfer h
    exact ⟨fuel', r, _, h'⟩
  · rintro ⟨fuel, r, m, h⟩
    obtain ⟨fuel', h'⟩ := htransfer h
    exact ⟨fuel', r, _, h'⟩
  · intro fuel₁ fuel₂ r₁ r₂ m₁ m₂ h₁ h₂
    obtain ⟨fuel', h'⟩ := htransfer h₁
    obtain ⟨rfl, rfl⟩ := runMethod_unique h' h₂
    obtain ⟨-, hscopes, hdepth⟩ := runMethod_sound fuel₁ h₁
    exact ⟨rfl, rfl, ⟨hscopes, hdepth⟩, rfl, rfl⟩

/-- A method that looks for a variable that is not its own. -/
def peek : Method :=
  { name := "peek", params := ["n"], body :=
      [.expression .print [.var "n"], .expression .giveBack [.var "secret"]] }

/-- A caller that has the variable gets the same error as a caller without
variables, and its variable is still there afterwards. -/
theorem peek_isolated_from_caller :
    ∃ m₁ m₂ : Machine Buffer,
      runMethod { main := .main [], methods := [peek] } 1 1 peek [7]
          { scopes := ⟨#[{ parent := none, vars := [("secret", 3)] }]⟩, depth := 0,
            out := .unbounded } = .finished (.error (.undefinedVariable "secret")) m₁ ∧
        runMethod { main := .main [], methods := [peek] } 1 1 peek [7]
          { scopes := .empty, depth := 0, out := .unbounded } =
            .finished (.error (.undefinedVariable "secret")) m₂ ∧
        m₁.out = m₂.out ∧ m₁.scopes = ⟨#[{ parent := none, vars := [("secret", 3)] }]⟩ := by
  refine ⟨_, _, rfl, rfl, ?_⟩
  obtain ⟨-, hout, ⟨hscopes, -⟩, -⟩ := (call_isolated_from_caller
    { main := .main [], methods := [peek] } 1 peek [7] 0 Buffer.unbounded
    ⟨#[{ parent := none, vars := [("secret", 3)] }]⟩ .empty).2 1 1
    (.error (.undefinedVariable "secret")) (.error (.undefinedVariable "secret")) _ _ rfl rfl
  exact ⟨hout, hscopes⟩

end Showtime
