/-
# Runs of a program

An interpreter keeps its two sinks and its scopes over several runs.  A run
executes the entry method, reports the error if there is one, and flushes both
sinks; an error of the program goes before an error of flushing.
-/

import Showtime.Run.Eval

namespace Showtime

/-- How many calls may be active when nothing else is set. -/
def defaultCallDepth : Nat := 10000

/-- A program with the number of calls that may be active. -/
structure Job where
  program : Program
  limit : Nat := defaultCallDepth

/-- An interpreter between two runs: the state of the machine, with the output,
and the sink for reports. -/
structure Interpreter (σ τ : Type) where
  machine : Machine σ
  diag : τ

namespace Interpreter

variable {σ τ : Type} [Sink σ] [Sink τ]

/-- An interpreter before its first run. -/
def fresh (out : σ) (diag : τ) : Interpreter σ τ :=
  { machine := { scopes := .empty, depth := 0, out }, diag }

/-- Executes the entry method in a scope of its own. -/
def runEntry (job : Job) (fuel : Nat) : Exec σ Flow :=
  Exec.withScope none fun root =>
    Eval.runStatements job.program (Eval.runMethod job.program job.limit fuel) fuel root
      job.program.main.body

/-- Writes the report of an error.  A failure to do so has nowhere to be
reported itself. -/
def report (e : RuntimeError) (diag : τ) : τ :=
  (Sink.write diag (e.render ++ "\n").toUTF8).2

/-- Flushes the output and, if that went well, the reports. -/
def flush (i : Interpreter σ τ) : Option String × Interpreter σ τ :=
  let { machine := { scopes, depth, out }, diag } := i
  match Sink.flush out with
  | (some reason, out) => (some reason, { machine := { scopes, depth, out }, diag })
  | (none, out) =>
    let (reason, diag) := Sink.flush diag
    (reason, { machine := { scopes, depth, out }, diag })

/-- The result of a run: the error of the program, or else that of flushing. -/
def result : Option RuntimeError → Option String → Except RuntimeError Unit
  | some e, _ => .error e
  | none, some reason => .error (.io reason)
  | none, none => .ok ()

/-- Ends a run that has executed the entry method. -/
def conclude (error : Option RuntimeError) (machine : Machine σ) (diag : τ) :
    Except RuntimeError Unit × Interpreter σ τ :=
  let diag := match error with
    | some e => report e diag
    | none => diag
  let (reason, i) := flush { machine, diag }
  (result error reason, i)

/-- Runs the program once; `none` when the fuel does not suffice. -/
def run (job : Job) (fuel : Nat) (i : Interpreter σ τ) :
    Option (Except RuntimeError Unit × Interpreter σ τ) :=
  let { machine, diag } := i
  match runEntry job fuel machine with
  | .done _ machine => some (conclude none machine diag)
  | .failed e machine => some (conclude (some e) machine diag)
  | .exhausted => none

/-- Runs the program several times, with the result of each run. -/
def runTimes (job : Job) (fuel : Nat) :
    Nat → Interpreter σ τ → Option (List (Except RuntimeError Unit) × Interpreter σ τ)
  | 0, i => some ([], i)
  | times + 1, i => do
    let (first, i) ← i.run job fuel
    let (rest, i) ← runTimes job fuel times i
    return (first :: rest, i)

end Interpreter

/-- Fuel that no run on a computer uses up. -/
def ampleFuel : Nat := 4611686018427387904

end Showtime
