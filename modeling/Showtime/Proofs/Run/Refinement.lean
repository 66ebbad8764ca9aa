/-
# Runs of an interpreter

The entry method runs on a scope of its own, so what an interpreter executes is
exactly what the plain semantics runs on one empty map, whatever the stack holds
below that scope and however often the interpreter was used before
(`runEntry_finished_iff`).

With sinks that never fail nothing else decides how a run ends, so an
interpreter and the plain semantics stop on the same programs, with the same
result and the same output (`run_agrees_with_plain_semantics`).
-/

import Showtime.Proofs.Run.Simulation
import Showtime.Proofs.Run.Transcript

namespace Showtime

open Eval ScopeStack

variable {σ τ : Type} [Sink σ] [Sink τ] {job : Job}

/-- The error of an ending, if it is one. -/
def Ending.error? : Ending → Option RuntimeError
  | .ok _ => none
  | .error e => some e

namespace Interpreter

/-- **The entry method runs as the plain semantics says.**  Afterwards the stack
and the number of active calls are as before. -/
theorem runEntry_finished_iff {m m' : Machine σ} {r : Ending} :
    (∃ fuel, runEntry job fuel m = .finished r m') ↔
      ∃ c out, Runs job.program job.limit m.depth (.body job.program.main.body)
        ⟨.root ∅, m.out⟩ r ⟨c, out⟩ ∧ m' = { m with out := out } := by
  constructor
  · rintro ⟨fuel, h⟩
    rw [runEntry, Exec.withScope_eq] at h
    obtain ⟨r, ⟨st, depth, out⟩, hbody, rfl, rfl⟩ := Outcome.map_eq_finished h
    obtain ⟨c, hruns, -, hwithin, hdepth⟩ := runStatements_sound (runMethod_sound fuel) fuel _
      job.program.main.body (shows_push_none m.scopes) hbody
    rw [Except.map_id, id]
    refine ⟨c, out, hruns, ?_⟩
    rw [Exec.pop, hwithin.pop_eq, show depth = m.depth from hdepth]
  · rintro ⟨c, out, hruns, rfl⟩
    obtain ⟨fuel, st, hbody, -, hwithin⟩ := realized hruns (shows_push_none m.scopes)
    refine ⟨fuel, ?_⟩
    rw [perform] at hbody
    rw [runEntry, Exec.withScope_eq, hbody, Outcome.map_finished, Exec.pop, hwithin.pop_eq]
    cases r <;> rfl

/-- A run is the entry method and what is done at the end. -/
theorem run_eq_some_iff {fuel : Nat} {i i' : Interpreter σ τ} {result : Except RuntimeError Unit} :
    i.run job fuel = some (result, i') ↔
      ∃ (r : Ending) (m : Machine σ), runEntry job fuel i.machine = .finished r m ∧
        conclude r.error? m i.diag = (result, i') := by
  rw [run]
  constructor
  · intro h
    cases hrun : runEntry job fuel i.machine with
    | done flow m =>
      rw [hrun] at h
      exact ⟨.ok flow, m, rfl, Option.some.inj h⟩
    | failed e m =>
      rw [hrun] at h
      exact ⟨.error e, m, rfl, Option.some.inj h⟩
    | exhausted =>
      rw [hrun] at h
      cases h
  · rintro ⟨r, m, hrun, hconclude⟩
    rw [hrun, ← hconclude]
    cases r <;> rfl

/-- More fuel keeps how the entry method has ended. -/
theorem runEntry_extended {fuel fuel' : Nat} (hle : fuel ≤ fuel') :
    (runEntry (σ := σ) job fuel).ExtendedBy (runEntry job fuel') :=
  .withScope fun root => runStatements_extended (runMethod_extended job.limit hle) hle root _

/-- The entry method ends in one way, whatever fuel it takes. -/
theorem runEntry_unique {m m₁ m₂ : Machine σ} {r₁ r₂ : Ending} {fuel₁ fuel₂ : Nat}
    (h₁ : runEntry job fuel₁ m = .finished r₁ m₁) (h₂ : runEntry job fuel₂ m = .finished r₂ m₂) :
    r₁ = r₂ ∧ m₁ = m₂ := by
  have h₁ := (runEntry_extended (le_max_left fuel₁ fuel₂)).finished h₁
  have h₂ := (runEntry_extended (le_max_right fuel₁ fuel₂)).finished h₂
  exact Outcome.finished_inj.1 (h₁.symm.trans h₂)

/-- The end of a run whose sinks do not fail: the result is that of the entry
method, and the output is flushed. -/
theorem conclude_of_neverFails {diag : τ} (hdiag : Sink.NeverFails diag) (st : ScopeStack)
    (depth : Nat) {out : σ} (hflush : (Sink.flush out).1 = none) (r : Ending) :
    (conclude r.error? { scopes := st, depth, out } diag).1 = r.map (fun _ => ()) ∧
      (conclude r.error? { scopes := st, depth, out } diag).2.machine.out =
        (Sink.flush out).2 := by
  rcases hout : Sink.flush out with ⟨failure, out'⟩
  obtain rfl : failure = none := by
    rw [hout] at hflush
    exact hflush
  cases r with
  | ok flow =>
    have hreport : (Sink.flush diag).1 = none := hdiag.flush []
    simp only [conclude, flush, hout, Ending.error?, hreport]
    exact ⟨rfl, trivial⟩
  | error e =>
    have hreport : (Sink.flush (report e diag)).1 = none :=
      hdiag.flush [(e.render ++ "\n").toUTF8]
    simp only [conclude, flush, hout, Ending.error?, hreport]
    exact ⟨rfl, trivial⟩

end Interpreter

/-- How a program ends by the plain semantics, and what it writes. -/
def Job.Ends (job : Job) (r : Ending) (written : List ByteArray) : Prop :=
  ∃ c, Runs job.program job.limit 0 (.body job.program.main.body) ⟨.root ∅, Transcript.mk []⟩ r
    ⟨c, Transcript.mk written⟩

/-- The entry method on a sink that never fails. -/
theorem Interpreter.runEntry_ends_iff {out : σ} (hout : Sink.NeverFails out) {st : ScopeStack}
    {r : Ending} {m : Machine σ} :
    (∃ fuel, runEntry job fuel { scopes := st, depth := 0, out } = .finished r m) ↔
      ∃ written, job.Ends r written ∧
        m = { scopes := st, depth := 0, out := Sink.writeAll out written } := by
  rw [runEntry_finished_iff]
  constructor
  · rintro ⟨c, out', hruns, rfl⟩
    obtain ⟨written, rfl, htranscript⟩ := (runs_writeAll_iff hout).1 hruns
    exact ⟨written, ⟨c, htranscript⟩, rfl⟩
  · rintro ⟨written, ⟨c, hruns⟩, rfl⟩
    exact ⟨c, _, (runs_writeAll_iff hout).2 ⟨written, rfl, hruns⟩, rfl⟩

/-- **The interpreter agrees with the plain semantics.**  Take an interpreter in
which no call is active, as before the first run and between two runs, and whose
sinks never fail.  A run stops if and only if the plain semantics has an end for
the program; then both have the same result, and what the output gets is what
the plain semantics writes, piece by piece. -/
theorem run_agrees_with_plain_semantics (job : Job) {i : Interpreter σ τ}
    (hdepth : i.machine.depth = 0) (hout : Sink.NeverFails i.machine.out)
    (hdiag : Sink.NeverFails i.diag) :
    ((∃ fuel, (i.run job fuel).isSome) ↔ ∃ r written, job.Ends r written) ∧
    ∀ fuel result i', i.run job fuel = some (result, i') →
      ∀ r written, job.Ends r written →
        result = r.map (fun _ => ()) ∧
          i'.machine.out = (Sink.flush (Sink.writeAll i.machine.out written)).2 := by
  obtain ⟨⟨st, depth, out⟩, diag⟩ := i
  obtain rfl : depth = 0 := hdepth
  refine ⟨⟨?_, ?_⟩, ?_⟩
  · rintro ⟨fuel, h⟩
    obtain ⟨⟨result, i'⟩, h⟩ := Option.isSome_iff_exists.1 h
    obtain ⟨r, m, hentry, -⟩ := Interpreter.run_eq_some_iff.1 h
    obtain ⟨written, hends, -⟩ := (Interpreter.runEntry_ends_iff hout).1 ⟨fuel, hentry⟩
    exact ⟨r, written, hends⟩
  · rintro ⟨r, written, hends⟩
    obtain ⟨fuel, hentry⟩ := (Interpreter.runEntry_ends_iff hout).2 ⟨written, hends, rfl⟩
    exact ⟨fuel, Option.isSome_iff_exists.2 ⟨_, Interpreter.run_eq_some_iff.2 ⟨r, _, hentry, rfl⟩⟩⟩
  · intro fuel result i' h r' written hends
    obtain ⟨r, m, hentry, hconclude⟩ := Interpreter.run_eq_some_iff.1 h
    obtain ⟨fuel', hentry'⟩ := (Interpreter.runEntry_ends_iff hout).2 ⟨written, hends, rfl⟩
    obtain ⟨rfl, rfl⟩ := Interpreter.runEntry_unique hentry hentry'
    have hend := Interpreter.conclude_of_neverFails hdiag st 0 (hout.flush written) r
    rw [show Interpreter.conclude _ _ diag = (result, i') from hconclude] at hend
    exact hend

/-- A loop that writes a line twice. -/
def twice : Job where
  program :=
    { main := .main
        [.expression .declare [.var "n", .int 2],
          .block .loop [.var "n"]
            [.expression .print [.str "tick"],
              .block .assignment [.var "n"]
                [.expression .firstOperand [.var "n"], .expression .subtract [.int 1]]]]
      methods := [] }

/-- A buffer without a bound never fails, and `twice` has an end. -/
theorem twice_agrees_with_plain_semantics :
    Sink.NeverFails Buffer.unbounded ∧ ∃ r written, twice.Ends r written :=
  ⟨Buffer.neverFails_unbounded,
    (run_agrees_with_plain_semantics (i := .fresh Buffer.unbounded Buffer.unbounded) twice rfl
      Buffer.neverFails_unbounded Buffer.neverFails_unbounded).1.1 ⟨3, by decide⟩⟩

end Showtime
