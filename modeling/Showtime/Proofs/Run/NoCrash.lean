/-
# No run crashes

Whatever a program looks like, its strict run does what its run does
(`Strict.run_eq`): wherever an operation with limits is used, something has been
looked at before that keeps it within them.

| operation | what was looked at | lemma |
| --- | --- | --- |
| `slice` | the name of the method comes before the arguments | `length_of_methodName` |
| `scopeAt` | a search ends at a scope that is there | `scopeAt_of_owner` |
| `compute` | the divisor; a result is wrapped around | `apply_reads` |
| `countIn` | the limit | `runMethod_matches` |
| `countOut` | the body of a method leaves the count as it was | `withCall_matches` |

So a run that ends has ended well or with an error of the program.
-/

import Showtime.Proofs.Run.Moments
import Showtime.Proofs.Run.Strict

namespace Showtime

open Eval

namespace Strict

variable {σ α β : Type}

/-! ### Steps that do not crash -/

/-- The strict step does not crash, in any state, and does what the other step does. -/
def Matches (x : Strict σ α) (y : Exec σ α) : Prop := ∀ m, x m = .ok (y m)

/-- A step with nothing to check matches itself. -/
theorem matches_ofExec (x : Exec σ α) : (ofExec x).Matches x := fun _ => rfl

/-- A value is given at once in both. -/
theorem matches_pure (a : α) : (pure a : Strict σ α).Matches (pure a) := fun _ => rfl

section

variable {x : Strict σ α} {f : α → Strict σ β} {m m' : Machine σ}

/-- After a strict step that gives a value comes the next one. -/
theorem bind_done {a : α} (h : x m = .ok (.done a m')) : (x >>= f) m = f a m' := by
  change Strict.bind x f m = _
  rw [Strict.bind, h]

/-- A strict step that fails ends the sequence. -/
theorem bind_failed {e : RuntimeError} (h : x m = .ok (.failed e m')) :
    (x >>= f) m = .ok (.failed e m') := by
  change Strict.bind x f m = _
  rw [Strict.bind, h]

/-- A strict step that runs out of fuel ends the sequence. -/
theorem bind_exhausted (h : x m = .ok .exhausted) : (x >>= f) m = .ok .exhausted := by
  change Strict.bind x f m = _
  rw [Strict.bind, h]

end

/-- Steps that do not crash do not crash in sequence. -/
theorem Matches.bind {x : Strict σ α} {y : Exec σ α} {f : α → Strict σ β} {g : α → Exec σ β}
    (hx : x.Matches y) (hf : ∀ a, (f a).Matches (g a)) : (x >>= f).Matches (y >>= g) := by
  intro m
  have hm := hx m
  cases hy : y m with
  | done a m' =>
    rw [hy] at hm
    rw [bind_done hm, Exec.bind_done hy, hf a m']
  | failed e m' =>
    rw [hy] at hm
    rw [bind_failed hm, Exec.bind_failed hy]
  | exhausted =>
    rw [hy] at hm
    rw [bind_exhausted hm, Exec.bind_exhausted hy]

/-- Behind a computation that has succeeded. -/
theorem Matches.lift_bind {e : Except RuntimeError α} {f : α → Strict σ β} {g : α → Exec σ β}
    (hf : ∀ a, e = .ok a → (f a).Matches (g a)) :
    (ofExec (Exec.lift e) >>= f).Matches (Exec.lift e >>= g) := by
  cases e with
  | error e => exact fun _ => rfl
  | ok a => exact hf a rfl

/-- A step in a fresh scope does not crash if the step itself does not. -/
theorem Matches.withScope {parent : Option ScopeRef} {x : ScopeRef → Strict σ α}
    {y : ScopeRef → Exec σ α} (h : ∀ ref, (x ref).Matches (y ref)) :
    (Strict.withScope parent x).Matches (Exec.withScope parent y) := by
  intro m
  rw [Exec.withScope_eq, Strict.withScope, andFinally, h m.scopes.next]
  cases y m.scopes.next { m with scopes := m.scopes.push parent } <;> rfl

/-! ### Variables -/

/-- The strict step does not crash.  It gives what is computed from the scopes, and
changes nothing. -/
def Reads (x : Strict σ α) (e : ScopeStack → Except RuntimeError α) : Prop :=
  x.Matches fun m => Exec.lift (e m.scopes) m

/-- What a strict step computes from the scopes of a machine. -/
theorem Reads.apply {x : Strict σ α} {e : ScopeStack → Except RuntimeError α} (h : x.Reads e)
    (m : Machine σ) : x m = .ok (Exec.lift (e m.scopes) m) := h m

/-- A value that needs no scopes is computed without a crash. -/
theorem reads_lift (e : Except RuntimeError α) :
    (ofExec (Exec.lift e) : Strict σ α).Reads fun _ => e :=
  matches_ofExec _

/-- Computations that do not crash do not crash in sequence. -/
theorem Reads.bind {x : Strict σ α} {e : ScopeStack → Except RuntimeError α}
    {f : α → Strict σ β} {g : α → ScopeStack → Except RuntimeError β} (hx : x.Reads e)
    (hf : ∀ a, (f a).Reads (g a)) : (x >>= f).Reads fun st => e st >>= fun a => g a st := by
  intro m
  have hm := hx.apply m
  beta_reduce
  cases he : e m.scopes with
  | error e =>
    rw [he] at hm
    exact bind_failed hm
  | ok a =>
    rw [he] at hm
    exact (bind_done hm).trans (hf a m)

/-- **A search ends at a scope that is there.** -/
theorem scopeAt_of_owner {scope owner : ScopeRef} {name : String} {m : Machine σ}
    (h : m.scopes.owner scope name = some owner) :
    ∃ s, m.scopes.at? owner = some s ∧ scopeAt owner m = .ok (.done s m) := by
  obtain ⟨s, hs, -⟩ := (ScopeStack.nearest_of_owner h).binds
  refine ⟨s, hs, ?_⟩
  simp only [scopeAt, withScopes, hs]
  rfl

/-- A variable is looked up without a crash. -/
theorem lookup_reads (scope : ScopeRef) (name : String) :
    (lookup scope name : Strict σ (Option Int64)).Reads fun st => .ok (st.lookup scope name) := by
  simp only [ScopeStack.lookup_eq_bind]
  intro m
  beta_reduce
  cases howner : m.scopes.owner scope name with
  | none =>
    simp only [lookup, withScopes, howner]
    rfl
  | some owner =>
    obtain ⟨s, hs, hread⟩ := scopeAt_of_owner howner
    simp only [lookup, withScopes, howner]
    rw [bind_done hread, Option.bind_some, ScopeStack.binding?, hs]
    rfl

/-- An operand is looked up without a crash. -/
theorem resolve_reads (scope : ScopeRef) (v : Value) :
    (resolve scope v : Strict σ Int64).Reads fun st => st.get scope v := by
  cases v with
  | int n => exact matches_pure n
  | str s => exact matches_ofExec _
  | var name =>
    have hget (st : ScopeStack) : st.get scope (.var name) =
        Except.ok (st.lookup scope name) >>= fun n? =>
          n?.elim (.error (.undefinedVariable name)) .ok := by
      rw [ScopeStack.get]
      cases st.lookup scope name <;> rfl
    simp only [hget]
    refine .bind (lookup_reads scope name) fun n? => ?_
    cases n? with
    | none => exact matches_ofExec _
    | some n => exact matches_pure n

/-- Looking up an operand does not crash, as a step of a run. -/
theorem resolve_matches (scope : ScopeRef) (v : Value) :
    (resolve scope v : Strict σ Int64).Matches (Exec.resolve scope v) := by
  intro m
  rw [(resolve_reads scope v).apply m, Exec.resolve]
  cases m.scopes.get scope v <;> rfl

/-- Arguments are looked up without a crash. -/
theorem resolveAll_reads (scope : ScopeRef) (vs : List Value) :
    (resolveAll scope vs : Strict σ (List Int64)).Reads fun st =>
      Eval.resolveAll st scope vs := by
  induction vs with
  | nil => exact matches_pure []
  | cons v rest ih =>
    have hbind (st : ScopeStack) : Eval.resolveAll st scope (v :: rest) =
        st.get scope v >>= fun n => Eval.resolveAll st scope rest >>= fun ns => .ok (n :: ns) := by
      rw [Eval.resolveAll]
      cases st.get scope v with
      | error e => rfl
      | ok n => cases Eval.resolveAll st scope rest <;> rfl
    simp only [hbind]
    exact .bind (resolve_reads scope v) fun n => .bind ih fun ns => matches_pure (n :: ns)

/-- A variable is set without a crash: the scope that owns it is there. -/
theorem set_matches (scope : ScopeRef) (name : String) (value : Int64) :
    (set scope name value : Strict σ Unit).Matches (Exec.set scope name value) := by
  intro m
  rw [Exec.set, ScopeStack.set]
  cases howner : m.scopes.owner scope name with
  | none =>
    simp only [set, withScopes, howner]
    rfl
  | some owner =>
    obtain ⟨s, -, hread⟩ := scopeAt_of_owner howner
    simp only [set, withScopes, howner]
    rw [bind_done hread]
    rfl

/-! ### Assignments -/

/-- **An operator divides by no zero, and its result is wrapped around.** -/
theorem apply_reads (op : Op) (acc rhs : Int64) :
    (apply op acc rhs : Strict σ Int64).Reads fun _ => Eval.apply op acc rhs := by
  intro m
  rw [apply]
  split_ifs with hfold hdivisor
  · obtain ⟨rfl, rfl⟩ := hdivisor
    rfl
  · obtain ⟨n, happly, hn⟩ := Eval.apply_eq_ok hfold acc rhs hdivisor
    rw [compute, if_neg hdivisor, word, ← hn, Integer.ofInt?_toInt, happly]
    rfl
  · cases op <;> first | rfl | cases hfold rfl

/-- The steps of a fold are computed without a crash. -/
theorem foldFrom_reads (scope : ScopeRef) (acc : Int64) (body : List Statement) :
    (foldFrom scope acc body : Strict σ Int64).Reads fun st =>
      Eval.foldFrom st scope acc body := by
  induction body generalizing acc with
  | nil => exact matches_pure acc
  | cons s rest ih =>
    cases s with
    | block kind args body => exact matches_ofExec _
    | expression op args =>
      simp only [foldFrom, Eval.foldFrom]
      split_ifs
      · exact .bind (reads_lift _) fun v => .bind (resolve_reads scope v) fun rhs =>
          .bind (apply_reads op acc rhs) fun acc => ih acc
      · exact matches_ofExec _

/-- A fold is computed without a crash, also from a body that is none. -/
theorem fold_reads (scope : ScopeRef) (body : List Statement) :
    (fold scope body : Strict σ Int64).Reads fun st => Eval.fold st scope body := by
  match body with
  | [] => exact matches_ofExec _
  | .block kind args inner :: rest => exact matches_ofExec _
  | .expression op args :: rest =>
    cases op with
    | firstOperand =>
      exact .bind (reads_lift _) fun v => .bind (resolve_reads scope v) fun seed =>
        foldFrom_reads scope seed rest
    | _ => exact matches_ofExec _

/-- An assignment does not crash. -/
theorem runAssignment_matches (args : List Value) (body : List Statement) (scope : ScopeRef) :
    (runAssignment args body scope : Strict σ Flow).Matches
      (Eval.runAssignment args body scope) :=
  .bind (matches_ofExec _) fun name => .bind (.withScope fun child => fold_reads child body)
    fun value => .bind (set_matches scope name value) fun _ => matches_pure _

/-! ### Calls -/

/-- Every strict call does what the call does. -/
def InvokeMatches (strict : Strict.Invoke σ) (invoke : Eval.Invoke σ) : Prop :=
  ∀ method values, (strict method values).Matches (invoke method values)

section

variable {p : Program} {strict : Strict.Invoke σ} {invoke : Eval.Invoke σ}

/-- A call does not crash if the method does not. -/
theorem call_matches (h : InvokeMatches strict invoke) (name : String) (args : List Value)
    (scope : ScopeRef) :
    (call p strict name args scope).Matches (Eval.call p invoke name args scope) := by
  intro m
  simp only [call, Eval.call, prepare]
  cases p.method? name with
  | none => rfl
  | some method =>
    dsimp only
    split_ifs
    · have hargs := (resolveAll_reads scope args).apply m
      cases hvalues : Eval.resolveAll m.scopes scope args with
      | error e =>
        rw [hvalues] at hargs
        exact bind_failed hargs
      | ok values =>
        rw [hvalues] at hargs
        exact (bind_done hargs).trans (h method values m)
    · rfl

/-- The value of a call is assigned without a crash. -/
theorem assignResult_matches (scope : ScopeRef) (name : String) (value : Int64) :
    (assignResult scope name value : Strict σ Unit).Matches
      (Eval.assignResult scope name value) := by
  intro m
  simp only [assignResult, withScopes, Eval.assignResult]
  split_ifs
  · exact set_matches scope name value m
  · rfl

/-- **The name of a method stands before the arguments of a call.** -/
theorem length_of_methodName {text name : String} {args : List Value} {i : Nat}
    (h : methodName text args i = .ok name) : i + 1 ≤ args.length := by
  rw [methodName] at h
  split at h
  · cases h
  · next hi => exact (List.getElem?_eq_some_iff.1 hi).1
  · cases h

/-- Arguments from an index on are there if the index is in the list. -/
theorem slice_matches {args : List Value} {start : Nat} (h : start ≤ args.length) :
    (slice args start : Strict σ (List Value)).Matches (pure (args.drop start)) := by
  rw [slice, if_pos h]
  exact matches_pure _

/-! ### Statements -/

/-- What is printed is found without a crash. -/
theorem printed_reads (scope : ScopeRef) (args : List Value) :
    (printed scope args : Strict σ String).Reads fun st => Eval.printed st scope args := by
  refine .bind (reads_lift _) fun v => ?_
  cases v with
  | str s => exact matches_pure s
  | _ => exact .bind (resolve_reads scope _) fun n => matches_pure _

variable [Sink σ]

/-- An instruction does not crash, with whatever operands. -/
theorem runInstruction_matches (h : InvokeMatches strict invoke) (op : Op) (args : List Value)
    (scope : ScopeRef) :
    (runInstruction p strict op args scope).Matches
      (Eval.runInstruction p invoke op args scope) := by
  cases op with
  | print =>
    exact .bind (printed_reads scope args) fun line => .bind (matches_ofExec _) fun _ =>
      matches_pure _
  | declare =>
    exact .bind (matches_ofExec _) fun name => .bind (matches_ofExec _) fun v =>
      .bind (resolve_matches scope v) fun value => .bind (matches_ofExec _) fun _ =>
        matches_pure _
  | giveBack =>
    cases args with
    | nil => exact matches_pure _
    | cons v rest => exact .bind (resolve_matches scope v) fun _ => matches_pure _
  | call =>
    exact .lift_bind fun name hname =>
      .bind (slice_matches (length_of_methodName hname)) fun rest =>
        .bind (call_matches h name rest scope) fun _ => matches_pure _
  | callInto =>
    exact .bind (matches_ofExec _) fun destination => .lift_bind fun name hname =>
      .bind (slice_matches (length_of_methodName hname)) fun rest =>
        .bind (call_matches h name rest scope) fun value =>
          .bind (assignResult_matches scope destination value) fun _ => matches_pure _
  | _ => exact matches_ofExec _

omit [Sink σ] in
/-- Steps that do not crash do not crash one after the other. -/
theorem Matches.andThen {x y : Strict σ Flow} {x' y' : Exec σ Flow} (hx : x.Matches x')
    (hy : y.Matches y') : (x.andThen y).Matches (x'.andThen y') := by
  refine .bind hx fun flow => ?_
  cases flow with
  | next => exact hy
  | giveBack value => exact matches_pure _

omit [Sink σ] in
/-- However often a loop goes round. -/
theorem iterate_matches {body : Strict σ Flow} {body' : Exec σ Flow} (h : body.Matches body')
    (test : Value) (scope : ScopeRef) (rounds : Nat) :
    (iterate test scope body rounds).Matches (Eval.iterate test scope body' rounds) := by
  induction rounds with
  | zero => exact matches_ofExec _
  | succ rounds ih =>
    rw [iterate_succ, iterate]
    refine .bind (resolve_matches scope test) fun n => ?_
    split_ifs
    · exact matches_pure _
    · exact .andThen h ih

mutual

/-- **No statement crashes.** -/
theorem runStatement_matches (h : InvokeMatches strict invoke) (fuel : Nat) (scope : ScopeRef)
    (s : Statement) :
    (runStatement p strict fuel scope s).Matches (Eval.runStatement p invoke fuel scope s) := by
  match s with
  | .expression op args =>
    rw [runStatement, Eval.runStatement]
    exact runInstruction_matches h op args scope
  | .block .assignment args body =>
    rw [runStatement, Eval.runStatement]
    exact runAssignment_matches args body scope
  | .block .conditional args body =>
    rw [runStatement, runStatement_conditional]
    refine .bind (matches_ofExec _) fun v => .bind (resolve_matches scope v) fun test => ?_
    split
    · rw [chosenBranch]
      split_ifs
      · simpa only [Eval.runStatements] using matches_pure _
      · exact runStatements_matches h fuel scope _
    · rw [chosenBranch]
      split_ifs <;> exact runStatements_matches h fuel scope _
    · next hone htwo =>
      rw [chosenBranch.eq_3 test body hone htwo]
      exact matches_ofExec _
  | .block .loop args body =>
    rw [runStatement, Eval.runStatement]
    refine .bind (matches_ofExec _) fun test => .withScope fun child => ?_
    exact iterate_matches (runStatements_matches h fuel child body) test child fuel
  | .block .trueBranch args body =>
    rw [Eval.runStatement_misplaced (.inl rfl)]
    simpa only [runStatement] using matches_ofExec _
  | .block .falseBranch args body =>
    rw [Eval.runStatement_misplaced (.inr rfl)]
    simpa only [runStatement] using matches_ofExec _
termination_by sizeOf s

/-- A list of statements does not crash. -/
theorem runStatements_matches (h : InvokeMatches strict invoke) (fuel : Nat) (scope : ScopeRef)
    (statements : List Statement) :
    (runStatements p strict fuel scope statements).Matches
      (Eval.runStatements p invoke fuel scope statements) := by
  match statements with
  | [] =>
    rw [runStatements, Eval.runStatements]
    exact matches_pure _
  | s :: rest =>
    rw [runStatements, runStatements_cons]
    exact .andThen (runStatement_matches h fuel scope s) (runStatements_matches h fuel scope rest)
termination_by sizeOf statements

end

end

/-! ### Active calls -/

/-- **A call that ends was counted.** -/
theorem countOut_of_depth {m : Machine σ} {n : Nat} (h : m.depth = n + 1) :
    countOut m = .ok (.done () { m with depth := m.depth - 1 }) := by
  rw [countOut, h]
  rfl

/-- What leaves the count as it was can be done inside a call. -/
theorem withCall_matches {x : Strict σ α} {y : Exec σ α} (hx : x.Matches y) (hy : y.Keeps)
    {limit : Nat} {m : Machine σ} (h : m.depth < limit) :
    (countIn limit >>= fun _ => andFinally x countOut) m = .ok (Exec.withCall y m) := by
  have hin : countIn limit m = .ok (.done () { m with depth := m.depth + 1 }) := if_pos h
  rw [bind_done hin, andFinally, hx, Exec.withCall]
  have hdepth {r : Except RuntimeError α} {m' : Machine σ}
      (hm' : y { m with depth := m.depth + 1 } = .finished r m') : m'.depth = m.depth + 1 :=
    (hy _ r m' hm').depth
  cases hend : y { m with depth := m.depth + 1 } with
  | done a m' => exact bind_done (countOut_of_depth (hdepth (r := .ok a) hend))
  | failed e m' => exact bind_done (countOut_of_depth (hdepth (r := .error e) hend))
  | exhausted => rfl

section

variable [Sink σ]

/-- The body of a method, with its parameters bound. -/
theorem runBody_matches {p : Program} {strict : Strict.Invoke σ} {invoke : Eval.Invoke σ}
    (h : InvokeMatches strict invoke) (fuel : Nat) (method : Method) (values : List Int64)
    (scope : ScopeRef) :
    Matches (fun m => (do
        let flow ← runStatements p strict fuel scope method.body
        return flow.value : Strict σ Int64)
        { m with scopes := bindParams scope method.params values m.scopes })
      (runBody p invoke fuel method values scope) := by
  intro m
  have hbody : (runStatements p strict fuel scope method.body >>= fun flow =>
      pure flow.value).Matches (Eval.runStatements p invoke fuel scope method.body >>= fun flow =>
        pure flow.value) :=
    .bind (runStatements_matches h fuel scope method.body) fun flow => matches_pure flow.value
  refine (hbody _).trans ?_
  change Except.ok (Exec.bind _ _ _) = _
  rw [Exec.bind, runBody]
  cases Eval.runStatements p invoke fuel scope method.body
    { m with scopes := bindParams scope method.params values m.scopes } <;> rfl

/-- **No call crashes.** -/
theorem runMethod_matches (p : Program) (limit fuel : Nat) :
    InvokeMatches (runMethod (σ := σ) p limit fuel) (Eval.runMethod p limit fuel) := by
  induction fuel with
  | zero => exact fun _ _ => matches_ofExec _
  | succ fuel ih =>
    intro method values m
    by_cases hle : limit ≤ m.depth
    · simp only [runMethod, Eval.runMethod, if_pos hle]
    · rw [runMethod_of_not_le hle]
      simp only [runMethod, if_neg hle]
      exact withCall_matches (.withScope (runBody_matches ih fuel method values))
        (.withScope (runBody_keeps (runMethod_keeps limit fuel) fuel method values))
        (Nat.lt_of_not_le hle)

/-- The entry method does not crash. -/
theorem runEntry_matches (job : Job) (fuel : Nat) :
    (runEntry job fuel : Strict σ Flow).Matches (Interpreter.runEntry job fuel) :=
  .withScope fun root =>
    runStatements_matches (runMethod_matches job.program job.limit fuel) fuel root _

/-- **No run crashes.** -/
theorem run_eq {τ : Type} [Sink τ] (job : Job) (fuel : Nat) (i : Interpreter σ τ) :
    run job fuel i = .ok (i.run job fuel) := by
  rw [run, runEntry_matches job fuel i.machine, Interpreter.run]
  cases Interpreter.runEntry job fuel i.machine <;> rfl

end

end Strict

/-- **No program makes a run crash.**  Take any program, well formed or not, any limit on
active calls and any sinks.

* A run that takes every slice, reads every scope and computes every result as if
  nothing could go wrong, and counts its calls likewise, does what the run does.  So it
  does not crash, and when it ends, the run has ended, well or with an error.
* At every moment of a run the count is the number of active calls and within the
  limit, and every scope that a search finds is there.
* A fold operator fails at a zero divisor only.  Otherwise its result is the exact
  number wrapped around. -/
theorem no_run_crashes {σ τ : Type} [Sink σ] [Sink τ] (job : Job) :
    (∀ fuel (i : Interpreter σ τ), Strict.run job fuel i = .ok (i.run job fuel)) ∧
    (∀ (out : σ) mo, Moment.Reached job.program job.limit out mo →
      mo.machine.depth = mo.calls.length ∧ mo.machine.depth ≤ job.limit ∧
        ∀ scope name owner, mo.machine.scopes.owner scope name = some owner →
          owner.index < mo.machine.scopes.size) ∧
    ∀ op : Op, op.isFold → ∀ acc rhs, if op = .divide ∧ rhs = 0
      then Eval.apply op acc rhs = .error .divisionByZero
      else ∃ n, Eval.apply op acc rhs = .ok n ∧
        n.toInt = Integer.wrap (op.exact acc.toInt rhs.toInt) := by
  refine ⟨fun fuel i => Strict.run_eq job fuel i, fun out mo hreached => ?_,
    fun op hfold acc rhs => ?_⟩
  · obtain ⟨hdepth, hle⟩ := hreached.counted
    refine ⟨hdepth, hdepth.trans_le hle, fun scope name owner howner => ?_⟩
    obtain ⟨s, hs, -⟩ := (ScopeStack.nearest_of_owner howner).binds
    exact ScopeStack.at?_lt hs
  · split_ifs with hdivisor
    · obtain ⟨rfl, rfl⟩ := hdivisor
      rfl
    · exact Eval.apply_eq_ok hfold acc rhs hdivisor

/-- The smallest integer by minus one, in a method that has the same parameter twice, and
then a branch outside of a conditional. -/
def Program.misshapen : Program where
  main := .main [.expression .callInto
    [.var "x", .var "negate", .int 1, .int (-9223372036854775808)]]
  methods := [{ name := "negate", params := ["n", "n"], body :=
    [.block .assignment [.var "n"]
      [.expression .firstOperand [.var "n"], .expression .divide [.int (-1)]],
    .block .trueBranch [] [.expression .call []]] }]

/-- The run ends with an error, and with no call active. -/
theorem misshapen_does_not_crash :
    ∃ i, Strict.run { program := .misshapen } 2 (.fresh Buffer.unbounded Buffer.unbounded) =
        .ok (some (.error (.unknownInstruction BlockKind.trueBranch.text), i)) ∧
      i.machine.depth = 0 := by
  obtain ⟨hrun, -⟩ := no_run_crashes (σ := Buffer) (τ := Buffer) { program := .misshapen }
  exact ⟨_, hrun 2 (.fresh .unbounded .unbounded), rfl⟩

/-- Unguarded, the arguments of a call without operands do crash. -/
example (m : Machine Buffer) : Strict.slice [] 1 m = .error (.slice 0 1) := rfl

end Showtime
