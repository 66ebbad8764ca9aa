/-
# What a machine does with a statement

A machine that runs a statement in a scope does what the statement is about to
do on the chain that the scope shows: `runStatement_performs` says so for every
kind of statement and every action, the failing ones among them.  No later proof
takes a statement apart.
-/

import Showtime.Proofs.Run.Fuel
import Showtime.Proofs.Scope.View

namespace Showtime
namespace Eval

variable {σ : Type} {p : Program} {st : ScopeStack} {ref : ScopeRef} {c : Chain}

/-! ### Operands and folds -/

/-- An operand with a value on the chain has it in the scope. -/
theorem resolve_done {m : Machine σ} (hshows : m.scopes.Shows ref c) {v : Value} {n : Int64}
    (h : c.get v = .ok n) : Exec.resolve ref v m = .done n m := by
  rw [Exec.resolve, hshows.get, h]

/-- An operand without one fails in the scope with the same error. -/
theorem resolve_failed {m : Machine σ} (hshows : m.scopes.Shows ref c) {v : Value}
    {e : RuntimeError} (h : c.get v = .error e) : Exec.resolve ref v m = .failed e m := by
  rw [Exec.resolve, hshows.get, h]

/-- Arguments are read in a scope as on the chain that it shows. -/
theorem resolveAll_eq (h : st.Shows ref c) (args : List Value) :
    resolveAll st ref args = args.mapM c.get := by
  induction args with
  | nil => rfl
  | cons v rest ih =>
    rw [resolveAll, List.mapM_cons, h.get, ih]
    cases c.get v with
    | error e => rfl
    | ok n => cases rest.mapM c.get <;> rfl

/-- The steps of a fold are computed in a scope as on the chain that it shows. -/
theorem foldFrom_eq (h : st.Shows ref c) (steps : List Statement) (acc : Int64) :
    foldFrom st ref acc steps = steps.foldlM c.foldStep acc := by
  induction steps generalizing acc with
  | nil => rfl
  | cons s rest ih =>
    rw [List.foldlM_cons]
    cases s with
    | block kind args body => rfl
    | expression op args =>
      rw [foldFrom, Chain.foldStep, h.get]
      split_ifs
      · cases operand op.text args 0 with
        | error e => rfl
        | ok v =>
          cases hv : c.get v with
          | error e => simp [bind, Except.bind, hv]
          | ok rhs =>
            cases ha : apply op acc rhs with
            | error e => simp [bind, Except.bind, hv, ha]
            | ok acc' => simpa [bind, Except.bind, hv, ha] using ih acc'
      · rfl

/-- A fold is computed in a scope as on the chain that it shows. -/
theorem fold_eq (h : st.Shows ref c) (body : List Statement) : fold st ref body = c.fold body := by
  match body with
  | [] => rfl
  | .block kind args inner :: rest => rfl
  | .expression op args :: rest =>
    cases op with
    | firstOperand =>
      rw [fold, Chain.fold, h.get]
      simp only [foldFrom_eq h]
    | _ => rfl

/-- A fold does not look at the empty scope that it gets. -/
theorem fold_enter (c : Chain) (body : List Statement) : c.enter.fold body = c.fold body := by
  have hstep : c.enter.foldStep = c.foldStep := by
    funext acc s
    cases s with
    | block kind args inner => rfl
    | expression op args => simp only [Chain.foldStep, Chain.get_enter]
  match body with
  | [] => rfl
  | .block kind args inner :: rest => rfl
  | .expression op args :: rest =>
    cases op with
    | firstOperand => simp only [Chain.fold, Chain.get_enter, hstep]
    | _ => rfl

/-- The scope in which a fold is computed is gone afterwards. -/
theorem withScope_fold {m : Machine σ} (hshows : m.scopes.Shows ref c) (body : List Statement) :
    Exec.withScope (some ref) (fun child m => Exec.lift (fold m.scopes child body) m) m =
      Exec.lift (c.fold body) m := by
  obtain ⟨st, depth, out⟩ := m
  simp only [Exec.withScope, fold_eq hshows.push_child, fold_enter]
  cases c.fold body <;> simp [Exec.lift, Exec.pop, ScopeStack.pop_push]

/-! ### Actions of a machine -/

/-- Gives the value of a call to the destination, if there is one. -/
def receive (scope : ScopeRef) (value : Int64) : Option String → Exec σ Unit
  | none => return ()
  | some destination => assignResult scope destination value

/-- A machine ends so when it does, in a scope, what a statement is about to do. -/
def Performs [Sink σ] (p : Program) (invoke : Invoke σ) (fuel : Nat) (ref : ScopeRef)
    (m : Machine σ) (o : Outcome σ Flow) : Except RuntimeError Action → Prop
  | .error e => o = .failed e m
  | .ok (.write line) => o = (Exec.writeLine line >>= fun _ => pure .next) m
  | .ok (.update c) => ∃ st, o = .done .next { m with scopes := st } ∧ st.Shows ref c ∧
      ScopeStack.ChangesWithin ref m.scopes st
  | .ok (.giveBack value) => o = .done (.giveBack value) m
  | .ok (.call method values destination) => o = (invoke method values >>= fun value =>
      receive ref value destination >>= fun _ => pure .next) m
  | .ok (.run statements) => o = runStatements p invoke fuel ref statements m
  | .ok (.loop test body) => o = Exec.withScope (some ref)
      (fun child => iterate test child (runStatements p invoke fuel child body) fuel) m

section

variable [Sink σ] {invoke : Invoke σ} {fuel : Nat} {m : Machine σ}

/-- Both sides begin with a value that needs no variables. -/
theorem Performs.lift {α : Type} {x : Except RuntimeError α} {f : α → Exec σ Flow}
    {g : α → Except RuntimeError Action} (h : ∀ a, Performs p invoke fuel ref m (f a m) (g a)) :
    Performs p invoke fuel ref m ((Exec.lift x >>= f) m) (x >>= g) := by
  cases x with
  | error e => rfl
  | ok a => exact h a

/-- Both sides begin by looking up an operand. -/
theorem Performs.resolve (hshows : m.scopes.Shows ref c) {v : Value} {f : Int64 → Exec σ Flow}
    {g : Int64 → Except RuntimeError Action} (h : ∀ n, Performs p invoke fuel ref m (f n m) (g n)) :
    Performs p invoke fuel ref m ((Exec.resolve ref v >>= f) m) (c.get v >>= g) := by
  cases hv : c.get v with
  | error e => exact Exec.bind_failed (resolve_failed hshows hv)
  | ok n =>
    rw [Exec.bind_done (resolve_done hshows hv)]
    exact h n

/-- A call, and what follows it, up to the point where the method starts. -/
theorem Performs.call (hshows : m.scopes.Shows ref c) {name : String} {args : List Value}
    {destination : Option String} :
    Performs p invoke fuel ref m ((call p invoke name args ref >>= fun value =>
      receive ref value destination >>= fun _ => pure .next) m)
      (c.invocation p name args destination) := by
  have hfail {e : RuntimeError} (h : prepare p m.scopes ref name args = .error e) :
      Eval.call p invoke name args ref m = .failed e m := by
    rw [Eval.call, h]
  rw [Chain.invocation]
  cases hmethod : p.method? name with
  | none => exact Exec.bind_failed (hfail (by rw [prepare, hmethod]))
  | some method =>
    by_cases harity : method.params.length = args.length
    · have hprepare : prepare p m.scopes ref name args = args.mapM c.get >>= fun values =>
          .ok (method, values) := by
        simp only [prepare, hmethod, if_pos harity, resolveAll_eq hshows]
        cases args.mapM c.get <;> rfl
      simp only [if_pos harity]
      cases hvalues : args.mapM c.get with
      | error e =>
        rw [hvalues] at hprepare
        exact Exec.bind_failed (hfail hprepare)
      | ok values =>
        rw [hvalues] at hprepare
        have hcall : Eval.call p invoke name args ref m = invoke method values m := by
          rw [Eval.call, hprepare]
          rfl
        change Exec.bind _ _ m = Exec.bind _ _ m
        simp only [Exec.bind, hcall]
    · simp only [if_neg harity]
      refine Exec.bind_failed (hfail ?_)
      simp only [prepare, hmethod, if_neg harity]

/-- A declaration in the scope itself. -/
theorem Performs.declare (hshows : m.scopes.Shows ref c) (name : String) (value : Int64) :
    Performs p invoke fuel ref m ((Exec.declare ref name value >>= fun _ => pure .next) m)
      (.ok (.update (c.declare name value))) :=
  ⟨_, rfl, hshows.declare name value,
    ScopeStack.changesWithin_declare _ (.here ref) name value⟩

/-- A change of value, from the scope. -/
theorem Performs.set (hshows : m.scopes.Shows ref c) (name : String) (value : Int64) :
    Performs p invoke fuel ref m ((Exec.set ref name value >>= fun _ => pure .next) m)
      (c.set name value >>= fun c' => .ok (.update c')) := by
  obtain ⟨st, depth, out⟩ := m
  have hset := hshows.set name value
  rw [Chain.set]
  cases hc : c.set? name value with
  | some c' =>
    rw [hc] at hset
    obtain ⟨owner, hreach, hset, hshows'⟩ := hset
    refine ⟨_, Exec.bind_done (by rw [Exec.set, hset]), hshows', ?_⟩
    exact ScopeStack.changesWithin_declare _ hreach name value
  | none =>
    rw [hc] at hset
    exact Exec.bind_failed (by rw [Exec.set, hset])

/-- An assignment does in a scope what it is about to do on the chain. -/
theorem Performs.assignment (hshows : m.scopes.Shows ref c) (args : List Value)
    (body : List Statement) :
    Performs p invoke fuel ref m (runAssignment args body ref m)
      (c.action p (.block .assignment args body)) := by
  refine .lift fun name => ?_
  cases hfold : c.fold body with
  | error e => exact Exec.bind_failed (by rw [withScope_fold hshows, hfold, Exec.lift])
  | ok value =>
    rw [Exec.bind_done (by rw [withScope_fold hshows, hfold, Exec.lift])]
    exact .set hshows name value

/-- Printing does in a scope what it is about to do on the chain. -/
theorem Performs.print (hshows : m.scopes.Shows ref c) (args : List Value) :
    Performs p invoke fuel ref m (runInstruction p invoke .print args ref m)
      (c.instruction p .print args) := by
  have hprinted : c.instruction p .print args = (printed m.scopes ref args).map .write := by
    rw [Chain.instruction, printed, hshows.get]
    cases operand Op.print.text args 0 with
    | error e => rfl
    | ok v =>
      cases v with
      | str s => rfl
      | int n => rfl
      | var name =>
        cases hv : c.get (.var name) <;>
          simp [bind, Except.bind, pure, Except.pure, Except.map, hv]
  rw [hprinted]
  simp only [runInstruction]
  cases hline : printed m.scopes ref args with
  | error e => exact Exec.bind_failed (by rw [hline, Exec.lift])
  | ok line => exact Exec.bind_done (by rw [hline, Exec.lift])

/-- An instruction does in a scope what it is about to do on the chain. -/
theorem Performs.instruction (hshows : m.scopes.Shows ref c) (op : Op) (args : List Value) :
    Performs p invoke fuel ref m (runInstruction p invoke op args ref m)
      (c.instruction p op args) := by
  cases op with
  | print => exact .print hshows args
  | declare =>
    exact .lift fun name => .lift fun v => .resolve hshows fun value => .declare hshows name value
  | giveBack =>
    cases args with
    | nil => rfl
    | cons v rest => exact .resolve hshows fun value => rfl
  | call => exact .lift fun name => .call hshows
  | callInto => exact .lift fun destination => .lift fun name => .call hshows
  | _ => rfl

/-- **A machine does what the statement is about to do.** -/
theorem runStatement_performs (hshows : m.scopes.Shows ref c) (s : Statement) :
    Performs p invoke fuel ref m (runStatement p invoke fuel ref s m) (c.action p s) := by
  cases s with
  | expression op args =>
    rw [runStatement]
    exact .instruction hshows op args
  | block kind args body =>
    cases kind with
    | assignment =>
      rw [runStatement]
      exact .assignment hshows args body
    | conditional =>
      rw [runStatement_conditional]
      refine .lift fun v => .resolve hshows fun test => ?_
      cases chosenBranch test body <;> rfl
    | loop =>
      rw [runStatement]
      exact .lift fun test => rfl
    | trueBranch =>
      rw [runStatement_misplaced (.inl rfl)]
      rfl
    | falseBranch =>
      rw [runStatement_misplaced (.inr rfl)]
      rfl

end

end Eval
end Showtime
