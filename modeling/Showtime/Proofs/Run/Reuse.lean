/-
# Using an interpreter again

Every step of a run puts the stack and the number of active calls back
(`Showtime.Proofs.Run.Shape`), so an interpreter without scopes and without
active calls is in that state again after every run (`Idle.run`).

All that a run leaves behind is then in its sinks.  One that never fails, however
often it is written to and flushed (`Sink.Reliable`), answers every run alike.
So the runs of one interpreter all have the result of the first, and each makes
the requests of the first (`runTimes_eq_some_iff`).
-/

import Showtime.Proofs.Run.Refinement
import Showtime.Proofs.Run.Shape

namespace Showtime

open Eval

/-! ### Sinks that never fail -/

/-- What a sink is asked to do. -/
inductive Sink.Request where
  | write (bytes : ByteArray)
  | flush

namespace Sink

variable {σ : Type} [Sink σ] {out : σ}

/-- What a sink does with a request. -/
def answer (out : σ) : Request → Option String × σ
  | .write bytes => Sink.write out bytes
  | .flush => Sink.flush out

/-- The sink after requests, one after another. -/
def serve (out : σ) (requests : List Request) : σ :=
  requests.foldl (fun out request => (answer out request).2) out

/-- However much was written to the sink and however often it was flushed, no
request fails. -/
def Reliable (out : σ) : Prop :=
  ∀ requests request, (answer (serve out requests) request).1 = none

/-- The requests of a run that writes these pieces: they are written, and the
sink is flushed. -/
def requestsOf (pieces : List ByteArray) : List Request :=
  pieces.map .write ++ [.flush]

/-- Requests are served one part after the other. -/
theorem serve_append (out : σ) (requests more : List Request) :
    serve out (requests ++ more) = serve (serve out requests) more :=
  List.foldl_append ..

/-- Serving requests to write is writing. -/
theorem serve_map_write (out : σ) (pieces : List ByteArray) :
    serve out (pieces.map .write) = writeAll out pieces :=
  List.foldl_map ..

/-- A run writes its pieces and then flushes. -/
theorem serve_requestsOf (out : σ) (pieces : List ByteArray) :
    serve out (requestsOf pieces) = (Sink.flush (writeAll out pieces)).2 := by
  rw [requestsOf, serve_append, serve_map_write]
  rfl

/-- A reliable sink is so after any requests. -/
theorem Reliable.serve (h : Reliable out) (requests : List Request) :
    Reliable (serve out requests) := by
  intro more request
  rw [← serve_append]
  exact h _ request

/-- A reliable sink never fails to take what is written. -/
theorem Reliable.neverFails (h : Reliable out) : NeverFails out := by
  constructor
  · intro pieces bytes
    rw [← serve_map_write]
    exact h _ (.write bytes)
  · intro pieces
    rw [← serve_map_write]
    exact h _ .flush

end Sink

/-- A buffer without a bound is reliable. -/
theorem Buffer.reliable_unbounded : Sink.Reliable Buffer.unbounded := by
  have hall (requests : List Sink.Request) : ∃ contents, Sink.serve Buffer.unbounded requests =
      { contents, limit := none, flushError := none } := by
    induction requests using List.reverseRecOn with
    | nil => exact ⟨.empty, rfl⟩
    | append_singleton requests request ih =>
      obtain ⟨contents, ih⟩ := ih
      rw [Sink.serve_append, ih]
      cases request with
      | write bytes => exact ⟨contents ++ bytes, rfl⟩
      | flush => exact ⟨contents, rfl⟩
  intro requests request
  obtain ⟨contents, h⟩ := hall requests
  rw [h]
  cases request <;> rfl

/-- A transcript is reliable. -/
theorem Transcript.reliable (t : Transcript) : Sink.Reliable t := by
  intro requests request
  cases request <;> rfl

/-- A transcript that was empty holds what was written to it. -/
theorem Transcript.writeAll_empty (pieces : List ByteArray) :
    Sink.writeAll (Transcript.mk []) pieces = Transcript.mk pieces := by
  induction pieces using List.reverseRecOn with
  | nil => rfl
  | append_singleton pieces bytes ih =>
    rw [Sink.writeAll_concat, ih]
    rfl

/-! ### One run after another -/

variable {σ τ : Type} [Sink σ] [Sink τ] {job : Job}

/-- What is reported of how the entry method has ended. -/
def Ending.reported : Ending → List ByteArray
  | .ok _ => []
  | .error e => [(e.render ++ "\n").toUTF8]

/-- A program ends in one way and writes one thing. -/
theorem Job.Ends.unique {r r' : Ending} {written written' : List ByteArray}
    (h : job.Ends r written) (h' : job.Ends r' written') : r = r' ∧ written = written' := by
  -- on an empty transcript, what is written can be told from the transcript afterwards
  have hrun {r : Ending} {written : List ByteArray} (h : job.Ends r written) :
      ∃ fuel, Interpreter.runEntry job fuel
          { scopes := .empty, depth := 0, out := Transcript.mk [] } =
        .finished r { scopes := .empty, depth := 0, out := Transcript.mk written } := by
    have hempty : Sink.NeverFails (Transcript.mk []) := (Transcript.reliable _).neverFails
    refine (Interpreter.runEntry_ends_iff hempty).2 ⟨written, h, ?_⟩
    rw [Transcript.writeAll_empty]
  obtain ⟨fuel, hfirst⟩ := hrun h
  obtain ⟨fuel', hsecond⟩ := hrun h'
  obtain ⟨hr, hm⟩ := Interpreter.runEntry_unique hfirst hsecond
  exact ⟨hr, congrArg (fun m => m.out.pieces) hm⟩

namespace Interpreter

/-- Nothing of a run is left in the machine. -/
structure Idle (i : Interpreter σ τ) : Prop where
  scopes : i.machine.scopes = .empty
  depth : i.machine.depth = 0

omit [Sink σ] [Sink τ] in
/-- A fresh interpreter has no scopes and no calls. -/
theorem idle_fresh (out : σ) (diag : τ) : (fresh out diag).Idle := ⟨rfl, rfl⟩

/-- **After a run nothing is left of it.** -/
theorem Idle.run {i i' : Interpreter σ τ} {fuel : Nat} {result : Except RuntimeError Unit}
    (hidle : i.Idle) (h : i.run job fuel = some (result, i')) : i'.Idle := by
  have hshape := run_keeps h
  refine ⟨ScopeStack.eq_empty_of_parents ?_, hshape.depth.trans hidle.depth⟩
  rw [hshape.parents, hidle.scopes]

/-- The end of a run whose sinks are reliable. -/
theorem conclude_of_reliable {out : σ} {diag : τ} (hout : Sink.Reliable out)
    (hdiag : Sink.Reliable diag) (st : ScopeStack) (depth : Nat) (r : Ending)
    (written : List ByteArray) :
    conclude r.error? { scopes := st, depth, out := Sink.writeAll out written } diag =
      (r.map fun _ => (),
        { machine := { scopes := st, depth, out := Sink.serve out (Sink.requestsOf written) }
          diag := Sink.serve diag (Sink.requestsOf r.reported) }) := by
  have hflush : (Sink.flush (Sink.writeAll out written)).1 = none := hout.neverFails.flush written
  have hreport : (Sink.flush (Sink.writeAll diag r.reported)).1 = none :=
    hdiag.neverFails.flush r.reported
  rw [Sink.serve_requestsOf, Sink.serve_requestsOf]
  rcases hout' : Sink.flush (Sink.writeAll out written) with ⟨failure, out'⟩
  obtain rfl : failure = none := by
    rw [hout'] at hflush
    exact hflush
  cases r with
  | ok flow =>
    have hnone : (Sink.flush diag).1 = none := hreport
    simp only [conclude, flush, hout', Ending.error?, hnone]
    rfl
  | error e =>
    have hnone : (Sink.flush (report e diag)).1 = none := hreport
    simp only [conclude, flush, hout', Ending.error?, hnone]
    rfl

/-- **A run of an idle interpreter with reliable sinks** has the result of the
program, and makes the requests that follow from it. -/
theorem run_eq_some_iff_ends {out : σ} {diag : τ} (hout : Sink.Reliable out)
    (hdiag : Sink.Reliable diag) {result : Except RuntimeError Unit} {i' : Interpreter σ τ} :
    (∃ fuel, (fresh out diag).run job fuel = some (result, i')) ↔
      ∃ r written, job.Ends r written ∧ result = r.map (fun _ => ()) ∧
        i' = fresh (Sink.serve out (Sink.requestsOf written))
          (Sink.serve diag (Sink.requestsOf r.reported)) := by
  constructor
  · rintro ⟨fuel, h⟩
    obtain ⟨r, m, hentry, hconclude⟩ := run_eq_some_iff.1 h
    obtain ⟨written, hends, rfl⟩ := (runEntry_ends_iff hout.neverFails).1 ⟨fuel, hentry⟩
    have hend := conclude_of_reliable hout hdiag .empty 0 r written
    obtain ⟨rfl, rfl⟩ := Prod.mk.inj (hconclude.symm.trans hend)
    exact ⟨r, written, hends, rfl, rfl⟩
  · rintro ⟨r, written, hends, rfl, rfl⟩
    obtain ⟨fuel, hentry⟩ := (runEntry_ends_iff hout.neverFails).2 ⟨written, hends, rfl⟩
    exact ⟨fuel, run_eq_some_iff.2
      ⟨r, _, hentry, conclude_of_reliable hout hdiag .empty 0 r written⟩⟩

/-- More fuel keeps a finished run. -/
theorem run_of_le {i : Interpreter σ τ} {fuel fuel' : Nat} (hle : fuel ≤ fuel')
    {x : Except RuntimeError Unit × Interpreter σ τ} (h : i.run job fuel = some x) :
    i.run job fuel' = some x := by
  obtain ⟨r, m, hentry, hconclude⟩ := run_eq_some_iff.1 h
  exact run_eq_some_iff.2 ⟨r, m, (runEntry_extended hle).finished hentry, hconclude⟩

/-- A run ends in one way, whatever fuel it takes. -/
theorem run_unique {i : Interpreter σ τ} {fuel fuel' : Nat}
    {x x' : Except RuntimeError Unit × Interpreter σ τ} (h : i.run job fuel = some x)
    (h' : i.run job fuel' = some x') : x = x' := by
  have h := run_of_le (le_max_left fuel fuel') h
  have h' := run_of_le (le_max_right fuel fuel') h'
  exact Option.some.inj (h.symm.trans h')

/-- Of several runs the first comes first. -/
theorem runTimes_succ_eq_some_iff {fuel n : Nat} {i i' : Interpreter σ τ}
    {results : List (Except RuntimeError Unit)} :
    i.runTimes job fuel (n + 1) = some (results, i') ↔
      ∃ first i₁ rest, i.run job fuel = some (first, i₁) ∧
        i₁.runTimes job fuel n = some (rest, i') ∧ results = first :: rest := by
  rw [runTimes]
  simp only [Option.bind_eq_bind, Option.bind_eq_some_iff, Prod.exists, Option.pure_def,
    Option.some.injEq, Prod.mk.injEq]
  constructor
  · rintro ⟨first, i₁, hfirst, rest, i₂, hrest, rfl, rfl⟩
    exact ⟨first, i₁, rest, hfirst, hrest, rfl⟩
  · rintro ⟨first, i₁, rest, hfirst, hrest, rfl⟩
    exact ⟨first, i₁, hfirst, rest, i', hrest, rfl, rfl⟩

/-- With more fuel several runs end alike. -/
theorem runTimes_of_le {i : Interpreter σ τ} {fuel fuel' n : Nat} (hle : fuel ≤ fuel')
    {x : List (Except RuntimeError Unit) × Interpreter σ τ}
    (h : i.runTimes job fuel n = some x) : i.runTimes job fuel' n = some x := by
  obtain ⟨results, i'⟩ := x
  induction n generalizing i results with
  | zero => exact h
  | succ n ih =>
    obtain ⟨first, i₁, rest, hfirst, hrest, rfl⟩ := runTimes_succ_eq_some_iff.1 h
    exact runTimes_succ_eq_some_iff.2 ⟨first, i₁, rest, run_of_le hle hfirst, ih rest hrest, rfl⟩

/-- **Runs of one interpreter are all alike.**  Each has the result of the
program and makes the same requests. -/
theorem runTimes_eq_some_iff {r : Ending} {written : List ByteArray} (hends : job.Ends r written)
    (n : Nat) {out : σ} {diag : τ} (hout : Sink.Reliable out) (hdiag : Sink.Reliable diag)
    {results : List (Except RuntimeError Unit)} {i' : Interpreter σ τ} :
    (∃ fuel, (fresh out diag).runTimes job fuel n = some (results, i')) ↔
      results = List.replicate n (r.map fun _ => ()) ∧
        i' = fresh (Sink.serve out (List.replicate n (Sink.requestsOf written)).flatten)
          (Sink.serve diag (List.replicate n (Sink.requestsOf r.reported)).flatten) := by
  induction n generalizing out diag results with
  | zero =>
    constructor
    · rintro ⟨fuel, h⟩
      obtain ⟨rfl, rfl⟩ := Prod.mk.inj (Option.some.inj h)
      exact ⟨rfl, rfl⟩
    · rintro ⟨rfl, rfl⟩
      exact ⟨0, rfl⟩
  | succ n ih =>
    -- after the first run the same is to be shown for the sinks that it leaves
    have hnext {results : List (Except RuntimeError Unit)} := @ih _ _
      (hout.serve (Sink.requestsOf written)) (hdiag.serve (Sink.requestsOf r.reported)) results
    have hflatten (requests : List Sink.Request) :
        (List.replicate (n + 1) requests).flatten =
          requests ++ (List.replicate n requests).flatten := by
      rw [List.replicate_succ, List.flatten_cons]
    rw [hflatten, hflatten, Sink.serve_append, Sink.serve_append, List.replicate_succ]
    constructor
    · rintro ⟨fuel, h⟩
      obtain ⟨first, i₁, rest, hfirst, hrest, rfl⟩ := runTimes_succ_eq_some_iff.1 h
      obtain ⟨r₁, written₁, hends₁, rfl, rfl⟩ :=
        (run_eq_some_iff_ends hout hdiag).1 ⟨fuel, hfirst⟩
      obtain ⟨rfl, rfl⟩ := hends.unique hends₁
      obtain ⟨rfl, rfl⟩ := hnext.1 ⟨fuel, hrest⟩
      exact ⟨rfl, rfl⟩
    · rintro ⟨rfl, rfl⟩
      obtain ⟨fuel₁, hfirst⟩ :=
        (run_eq_some_iff_ends hout hdiag).2 ⟨r, written, hends, rfl, rfl⟩
      obtain ⟨fuel₂, hrest⟩ := hnext.2 ⟨rfl, rfl⟩
      exact ⟨max fuel₁ fuel₂, runTimes_succ_eq_some_iff.2 ⟨_, _, _,
        run_of_le (le_max_left fuel₁ fuel₂) hfirst,
        runTimes_of_le (le_max_right fuel₁ fuel₂) hrest, rfl⟩⟩

end Interpreter

/-- What a single run of a fresh interpreter gives: its result, and the pieces
that it writes to each sink. -/
def Job.Gives (job : Job) (result : Except RuntimeError Unit)
    (written reported : List ByteArray) : Prop :=
  ∃ fuel, (Interpreter.fresh (Transcript.mk []) (Transcript.mk [])).run job fuel =
    some (result, Interpreter.fresh (Transcript.mk written) (Transcript.mk reported))

/-- How a program ends is what a single run gives. -/
theorem Job.Ends.gives {r : Ending} {written : List ByteArray} (h : job.Ends r written) :
    job.Gives (r.map fun _ => ()) written r.reported := by
  refine (Interpreter.run_eq_some_iff_ends (Transcript.reliable _) (Transcript.reliable _)).2
    ⟨r, written, h, rfl, ?_⟩
  rw [Sink.serve_requestsOf, Sink.serve_requestsOf, Transcript.writeAll_empty,
    Transcript.writeAll_empty]
  rfl

/-- **An interpreter ends where it started, and can be used again.**

Every execution of statements, of a block of any kind, of an assignment and of a
call that finishes, in whatever way, leaves as many scopes with the same parents
and as many active calls.  So there are no scopes and no active calls after a
run, if there were none before it, as with a fresh interpreter.

With sinks that never fail, `n` runs of one interpreter then have the result of
a single run of a fresh one, `n` times, and each sink gets what a single run
writes, `n` times. -/
theorem interpreter_returns_to_start (job : Job) :
    (∀ (callFuel fuel : Nat) (scope : ScopeRef),
      let invoke : Invoke σ := runMethod job.program job.limit callFuel
      (∀ statements, (runStatements job.program invoke fuel scope statements).Keeps) ∧
      (∀ kind args body,
        (runStatement job.program invoke fuel scope (.block kind args body)).Keeps) ∧
      (∀ args body, (runAssignment args body scope : Exec σ Flow).Keeps) ∧
      ∀ name args, (call job.program invoke name args scope).Keeps) ∧
    ((∀ (out : σ) (diag : τ), (Interpreter.fresh out diag).Idle) ∧
      ∀ (i i' : Interpreter σ τ) fuel result,
        i.Idle → i.run job fuel = some (result, i') → i'.Idle) ∧
    ∀ (out : σ) (diag : τ), Sink.Reliable out → Sink.Reliable diag →
      ∀ fuel result i, (Interpreter.fresh out diag).run job fuel = some (result, i) →
        ∃ written reported, job.Gives result written reported ∧ ∀ n,
          (∃ fuel', ((Interpreter.fresh out diag).runTimes job fuel' n).isSome) ∧
          ∀ fuel' results i', (Interpreter.fresh out diag).runTimes job fuel' n =
              some (results, i') →
            results = List.replicate n result ∧
              i'.machine.out =
                Sink.serve out (List.replicate n (Sink.requestsOf written)).flatten ∧
              i'.diag =
                Sink.serve diag (List.replicate n (Sink.requestsOf reported)).flatten := by
  refine ⟨fun callFuel fuel scope => ?_, ⟨Interpreter.idle_fresh, ?_⟩, ?_⟩
  · have hinvoke : InvokeKeeps (runMethod (σ := σ) job.program job.limit callFuel) :=
      runMethod_keeps job.limit callFuel
    exact ⟨runStatements_keeps hinvoke fuel scope,
      fun kind args body => runStatement_keeps hinvoke fuel scope _,
      fun args body => runAssignment_keeps args body scope,
      fun name args => call_keeps hinvoke name args scope⟩
  · intro i i' fuel result hidle h
    exact hidle.run h
  · intro out diag hout hdiag fuel result i h
    obtain ⟨r, written, hends, rfl, -⟩ :=
      (Interpreter.run_eq_some_iff_ends hout hdiag).1 ⟨fuel, h⟩
    refine ⟨written, r.reported, hends.gives, fun n => ⟨?_, ?_⟩⟩
    · obtain ⟨fuel', h'⟩ :=
        (Interpreter.runTimes_eq_some_iff hends n hout hdiag).2 ⟨rfl, rfl⟩
      exact ⟨fuel', Option.isSome_iff_exists.2 ⟨_, h'⟩⟩
    · intro fuel' results i' h'
      obtain ⟨rfl, rfl⟩ :=
        (Interpreter.runTimes_eq_some_iff hends n hout hdiag).1 ⟨fuel', h'⟩
      exact ⟨rfl, rfl, rfl⟩

/-- Divides by zero inside a loop, inside a method that is called from a loop. -/
def stumble : Job where
  program :=
    { main := .main [.expression .declare [.var "n", .int 1],
        .block .loop [.var "n"]
          [.expression .print [.str "once"], .expression .call [.var "fall", .var "n"]]]
      methods := [
        { name := "fall", params := ["k"], body :=
            [.block .loop [.var "k"]
              [.block .assignment [.var "k"]
                [.expression .firstOperand [.int 1], .expression .divide [.int 0]]]] }] }

/-- Three runs of one interpreter fail alike, each out of two loops, a call and
an assignment, and the interpreter is as it was. -/
theorem stumble_returns_to_start :
    Sink.Reliable Buffer.unbounded ∧
      ∃ (i i₃ : Interpreter Buffer Buffer) (fuel : Nat) (written reported : List ByteArray),
        (Interpreter.fresh .unbounded .unbounded).run stumble 2 =
          some (.error .divisionByZero, i) ∧ i.Idle ∧
        stumble.Gives (.error .divisionByZero) written reported ∧
        (Interpreter.fresh .unbounded .unbounded).runTimes stumble fuel 3 =
          some (List.replicate 3 (.error .divisionByZero), i₃) ∧
        i₃.machine.out =
          Sink.serve .unbounded (List.replicate 3 (Sink.requestsOf written)).flatten := by
  obtain ⟨-, ⟨hfresh, hidle⟩, hruns⟩ :=
    interpreter_returns_to_start (σ := Buffer) (τ := Buffer) stumble
  obtain ⟨i, hrun⟩ : ∃ i, (Interpreter.fresh Buffer.unbounded Buffer.unbounded).run stumble 2 =
      some (.error .divisionByZero, i) := ⟨_, rfl⟩
  obtain ⟨written, reported, hgives, hn⟩ := hruns _ _ Buffer.reliable_unbounded
    Buffer.reliable_unbounded 2 _ i hrun
  obtain ⟨⟨fuel, hsome⟩, hall⟩ := hn 3
  obtain ⟨⟨results, i₃⟩, h₃⟩ := Option.isSome_iff_exists.1 hsome
  obtain ⟨rfl, hout, -⟩ := hall fuel results i₃ h₃
  exact ⟨Buffer.reliable_unbounded, i, i₃, fuel, written, reported, hrun,
    hidle _ i 2 _ (hfresh _ _) hrun, hgives, h₃, hout⟩

end Showtime
