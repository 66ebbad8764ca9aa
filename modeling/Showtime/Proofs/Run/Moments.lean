/-
# The moments of a run

A run comes past many tasks: the statements of the entry method, the branches
and rounds that they consist of, the calls that they make and the bodies of the
methods.  A moment is the point where one of them starts, with the state of the
machine and the calls that are active then.  `Moment.Leads` says which moments
come out of which:

| task | what starts during it |
| --- | --- |
| statements | the first; the others when it has fallen through |
| conditional | the chosen branch |
| loop | its rounds, in a scope of the loop |
| rounds | the body; the other rounds when it has fallen through |
| call instruction | the call, when method, arity and arguments are found to be right |
| call | the body of the method, when fewer calls are active than may be |

The count of the machine is the number of active calls at every moment
(`Moment.Counted`), and a run fails with every error with which a task that
starts during it fails (`Moment.Leads.fails`).  With the plain semantics as a
guide the moments are complete: a run that exceeds the limit has come to a call
that found as many active as may be (`Moment.overruns_of_runs`).
-/

import Mathlib.Logic.Relation
import Showtime.Proofs.Run.Reading
import Showtime.Proofs.Run.Shape
import Showtime.Proofs.Run.Simulation

namespace Showtime

open Eval Relation

/-- What has to be right before a call. -/
theorem Eval.prepare_eq_ok_iff {p : Program} {st : ScopeStack} {ref : ScopeRef} {name : String}
    {args : List Value} {method : Method} {values : List Int64} :
    prepare p st ref name args = .ok (method, values) ↔
      p.method? name = some method ∧ method.params.length = args.length ∧
        resolveAll st ref args = .ok values := by
  constructor
  · intro h
    rw [prepare] at h
    split at h
    · cases h
    · next found hmethod =>
      split_ifs at h with harity
      split at h
      · cases h
      · next resolved hvalues =>
        cases h
        exact ⟨hmethod, harity, hvalues⟩
  · rintro ⟨hmethod, harity, hvalues⟩
    simp only [prepare, hmethod, if_pos harity, hvalues]

section

variable {σ : Type} {p : Program} {invoke : Invoke σ} {ref : ScopeRef} {name : String}
  {args : List Value} {m : Machine σ}

/-- A call that is prepared runs its method. -/
theorem Eval.call_of_prepare {method : Method} {values : List Int64}
    (h : prepare p m.scopes ref name args = .ok (method, values)) :
    call p invoke name args ref m = invoke method values m := by
  rw [call, h]

/-- A call without a destination drops the value. -/
theorem Eval.runStatement_call [Sink σ] (fuel : Nat) :
    runStatement p invoke fuel ref (.expression .call (.var name :: args)) m =
      (call p invoke name args ref >>= fun _ => pure .next) m := by
  rw [runStatement]
  exact Exec.bind_done (a := name) rfl

/-- A call with a destination gives the value to it. -/
theorem Eval.runStatement_callInto [Sink σ] (fuel : Nat) (destination : String) :
    runStatement p invoke fuel ref
        (.expression .callInto (.var destination :: .var name :: args)) m =
      (call p invoke name args ref >>= fun value =>
        receive ref value (some destination) >>= fun _ => pure .next) m := by
  rw [runStatement]
  exact (Exec.bind_done (a := destination) rfl).trans (Exec.bind_done (a := name) rfl)

end

/-- A conditional whose test has a value runs the branch that the value chooses. -/
theorem Eval.runStatement_chosen {σ : Type} [Sink σ] {p : Program} {invoke : Invoke σ} {fuel : Nat}
    {ref : ScopeRef} {v : Value} {args : List Value} {body statements : List Statement} {n : Int64}
    {m : Machine σ} (hv : m.scopes.get ref v = .ok n)
    (hchosen : chosenBranch n body = some statements) :
    runStatement p invoke fuel ref (.block .conditional (v :: args) body) m =
      runStatements p invoke fuel ref statements m := by
  have htest : Exec.resolve ref v m = .done n m := by rw [Exec.resolve, hv]
  rw [runStatement_conditional]
  refine (Exec.bind_done (a := v) rfl).trans ((Exec.bind_done htest).trans ?_)
  rw [hchosen]

/-- **Every task keeps the shape.** -/
theorem Eval.perform_keeps {σ : Type} [Sink σ] (p : Program) (limit fuel : Nat) (ref : ScopeRef)
    (task : Task) : (perform (σ := σ) p limit fuel ref task).Keeps := by
  have hinvoke : InvokeKeeps (runMethod (σ := σ) p limit fuel) := runMethod_keeps limit fuel
  cases task with
  | statement s => exact runStatement_keeps hinvoke fuel ref s
  | body statements => exact runStatements_keeps hinvoke fuel ref statements
  | rounds test body =>
    exact iterate_keeps (runStatements_keeps hinvoke fuel ref body) test ref fuel
  | call method values =>
    intro m r m' h
    obtain ⟨r₁, _, hcall, -, rfl⟩ := Outcome.map_eq_finished h
    exact hinvoke method values m r₁ _ hcall

/-- The start of a task in the middle of a run. -/
structure Moment (σ : Type) where
  /-- The methods whose calls are active, the innermost first. -/
  calls : List Method
  task : Task
  scope : ScopeRef
  machine : Machine σ

namespace Moment

variable {σ : Type} [Sink σ] {p : Program} {limit : Nat}

/-- During the task of one moment comes the other, with nothing between them but
tasks that are over. -/
inductive Leads (p : Program) (limit : Nat) : Moment σ → Moment σ → Prop
  | first {calls s rest ref m} :
    Leads p limit ⟨calls, .body (s :: rest), ref, m⟩ ⟨calls, .statement s, ref, m⟩
  | rest {calls s rest ref m m' fuel}
    (h : perform p limit fuel ref (.statement s) m = .done .next m') :
    Leads p limit ⟨calls, .body (s :: rest), ref, m⟩ ⟨calls, .body rest, ref, m'⟩
  | branch {calls v args body statements ref m n} (hv : m.scopes.get ref v = .ok n)
    (hchosen : chosenBranch n body = some statements) :
    Leads p limit ⟨calls, .statement (.block .conditional (v :: args) body), ref, m⟩
      ⟨calls, .body statements, ref, m⟩
  | loop {calls test args body ref m} :
    Leads p limit ⟨calls, .statement (.block .loop (test :: args) body), ref, m⟩
      ⟨calls, .rounds test body, m.scopes.next, { m with scopes := m.scopes.push (some ref) }⟩
  | round {calls test body ref m n} (htest : m.scopes.get ref test = .ok n) (hn : n ≠ 0) :
    Leads p limit ⟨calls, .rounds test body, ref, m⟩ ⟨calls, .body body, ref, m⟩
  | again {calls test body ref m m' n fuel} (htest : m.scopes.get ref test = .ok n) (hn : n ≠ 0)
    (h : perform p limit fuel ref (.body body) m = .done .next m') :
    Leads p limit ⟨calls, .rounds test body, ref, m⟩ ⟨calls, .rounds test body, ref, m'⟩
  | attempt {calls s name args ref m method values} (hcalls : s.Calls name args)
    (h : prepare p m.scopes ref name args = .ok (method, values)) :
    Leads p limit ⟨calls, .statement s, ref, m⟩ ⟨calls, .call method values, ref, m⟩
  | enter {calls method values ref m} (h : m.depth < limit) :
    Leads p limit ⟨calls, .call method values, ref, m⟩
      ⟨method :: calls, .body method.body, m.scopes.next, callee method values m⟩

/-- The start of the entry method, in a machine where no call is active. -/
def start (p : Program) (out : σ) : Moment σ where
  calls := []
  task := .body p.main.body
  scope := ScopeStack.empty.next
  machine := { scopes := ScopeStack.empty.push none, depth := 0, out }

/-- The moment comes in a run of the program. -/
def Reached (p : Program) (limit : Nat) (out : σ) : Moment σ → Prop :=
  ReflTransGen (Leads p limit) (start p out)

/-! ### The count of active calls -/

/-- The machine has counted the active calls, and there are no more than may be. -/
structure Counted (limit : Nat) (mo : Moment σ) : Prop where
  depth : mo.machine.depth = mo.calls.length
  le : mo.calls.length ≤ limit

/-- One moment after another. -/
theorem Leads.counted {mo mo' : Moment σ} (h : Leads p limit mo mo') (hmo : mo.Counted limit) :
    mo'.Counted limit := by
  obtain ⟨hdepth, hle⟩ := hmo
  cases h with
  | rest h | again _ _ h =>
    exact ⟨(perform_keeps p limit _ _ _ _ (.ok .next) _ h).depth.trans hdepth, hle⟩
  | @enter calls _ _ _ m h =>
    have hlt : calls.length < limit := hdepth.symm.trans_lt h
    exact ⟨congrArg Nat.succ hdepth, hlt⟩
  | _ => exact ⟨hdepth, hle⟩

/-- **At every moment of a run the count is the number of active calls**, and these
are as many as may be, or fewer. -/
theorem Reached.counted {out : σ} {mo : Moment σ} (h : Reached p limit out mo) :
    mo.Counted limit := by
  induction h with
  | refl => exact ⟨rfl, Nat.zero_le limit⟩
  | tail _ hlast ih => exact hlast.counted ih

/-! ### Errors end the whole run -/

/-- The task that starts fails with this error. -/
def Fails (p : Program) (limit : Nat) (e : RuntimeError) (mo : Moment σ) : Prop :=
  ∃ fuel m', perform p limit fuel mo.scope mo.task mo.machine = .failed e m'

/-- A call instruction fails when the method that it calls does. -/
theorem fails_of_calls {s : Statement} {name : String} {args : List Value}
    (hcalls : s.Calls name args) {ref : ScopeRef} {m m' : Machine σ} {method : Method}
    {values : List Int64} (h : prepare p m.scopes ref name args = .ok (method, values))
    {e : RuntimeError} {fuel : Nat}
    (hfails : runMethod p limit fuel method values m = .failed e m') :
    perform p limit fuel ref (.statement s) m = .failed e m' := by
  have hcall : call p (runMethod p limit fuel) name args ref m = .failed e m' :=
    (call_of_prepare h).trans hfails
  cases hcalls with
  | call name args =>
    rw [perform, runStatement_call]
    exact Exec.bind_failed hcall
  | callInto destination name args =>
    rw [perform, runStatement_callInto]
    exact Exec.bind_failed hcall

/-- **An error of a task ends every task that it is a part of.** -/
theorem Leads.fails {mo mo' : Moment σ} {e : RuntimeError} (h : Leads p limit mo mo')
    (hfails : mo'.Fails p limit e) : mo.Fails p limit e := by
  obtain ⟨fuel, m', hfails⟩ := hfails
  have hnext : (.error e : Ending) ≠ .ok .next := nofun
  cases h with
  | first =>
    refine ⟨fuel, m', ?_⟩
    rw [perform_cons]
    exact Exec.andThen_stop (r := .error e) hfails hnext
  | @rest calls s rest ref m m₁ fuel₁ h =>
    refine ⟨max fuel₁ fuel, m', ?_⟩
    have hfirst := perform_of_le (r := .ok .next) (le_max_left fuel₁ fuel) h
    rw [perform_cons, Exec.andThen_next hfirst]
    exact perform_of_le (r := .error e) (le_max_right fuel₁ fuel) hfails
  | branch hv hchosen => exact ⟨fuel, m', (runStatement_chosen hv hchosen).trans hfails⟩
  | @loop calls test args body ref m =>
    refine ⟨fuel, Exec.pop m.scopes.next m', ?_⟩
    rw [perform] at hfails
    rw [perform, runStatement]
    refine (Exec.bind_done (a := test) rfl).trans ?_
    rw [Exec.withScope_eq, hfails, Outcome.map]
  | @round calls test body ref m n htest hn =>
    refine ⟨fuel + 1, m', ?_⟩
    have htest : Exec.resolve ref test m = .done n m := by rw [Exec.resolve, htest]
    have hbody := perform_of_le (r := .error e) (Nat.le_succ fuel) hfails
    rw [perform_rounds, Exec.bind_done htest, if_neg hn]
    exact Exec.andThen_stop (r := .error e) hbody hnext
  | @again calls test body ref m m₁ n fuel₁ htest hn h =>
    have htest : Exec.resolve ref test m = .done n m := by rw [Exec.resolve, htest]
    have hle₁ : fuel₁ ≤ max fuel₁ fuel + 1 := (le_max_left _ _).trans (Nat.le_succ _)
    have hle : fuel ≤ max fuel₁ fuel + 1 := (le_max_right _ _).trans (Nat.le_succ _)
    have hbody := perform_of_le (r := .ok .next) hle₁ h
    refine ⟨max fuel₁ fuel + 1, m', ?_⟩
    rw [perform_rounds, Exec.bind_done htest, if_neg hn, Exec.andThen_next hbody]
    -- the other rounds have one round less to go, but bodies with more fuel
    exact (iterate_extended (perform_extended hle ref (.body body)) test ref
      (le_max_right _ _)).finished (r := .error e) hfails
  | attempt hcalls h =>
    obtain ⟨r, _, hcall, hr, rfl⟩ := Outcome.map_eq_finished (r := .error e) hfails
    obtain rfl : r = .error e := by
      cases r with
      | ok value => cases hr
      | error e' =>
        cases hr
        rfl
    exact ⟨fuel, _, fails_of_calls hcalls h hcall⟩
  | @enter calls method values ref m h =>
    refine ⟨fuel + 1, afterCall m m', ?_⟩
    rw [perform] at hfails
    rw [perform_call, runMethod_succ fuel method values h, hfails]
    rfl

/-! ### Calls beyond the limit -/

/-- A call instruction is about to call: there is a method of the name, it has as
many parameters as there are arguments, and all arguments have values. -/
def Attempts (p : Program) (mo : Moment σ) : Prop :=
  ∃ s name args method values, mo.task = .statement s ∧ s.Calls name args ∧
    p.method? name = some method ∧ method.params.length = args.length ∧
    resolveAll mo.machine.scopes mo.scope args = .ok values

/-- A call is about to start while as many are active as may be. -/
def AtLimit (limit : Nat) (mo : Moment σ) : Prop :=
  ∃ method values, mo.task = .call method values ∧ limit ≤ mo.machine.depth

/-- From the moment on the run comes to a call beyond the limit. -/
def Overruns (p : Program) (limit : Nat) (mo : Moment σ) : Prop :=
  ∃ mo', ReflTransGen (Leads p limit) mo mo' ∧ mo'.AtLimit limit

/-- What comes later in the run is a part of it. -/
theorem Leads.overruns {mo mo' : Moment σ} (h : Leads p limit mo mo')
    (h' : mo'.Overruns p limit) : mo.Overruns p limit := by
  obtain ⟨mo'', hleads, hlimit⟩ := h'
  exact ⟨mo'', .head h hleads, hlimit⟩

/-- **A run that comes to a call beyond the limit fails there.** -/
theorem Overruns.fails {mo : Moment σ} (h : mo.Overruns p limit) :
    mo.Fails p limit (.callDepthExceeded limit) := by
  obtain ⟨mo', hleads, method, values, htask, hle⟩ := h
  induction hleads using ReflTransGen.head_induction_on with
  | refl =>
    refine ⟨1, mo'.machine, ?_⟩
    rw [htask, perform_call, runMethod_succ_of_le 0 method values hle]
    rfl
  | head hfirst _ ih => exact hfirst.fails ih

/-- **A run comes to a call beyond the limit exactly if one is attempted while so
many are active.** -/
theorem start_overruns_iff {out : σ} :
    (start p out).Overruns p limit ↔
      ∃ mo, Reached p limit out mo ∧ mo.Attempts p ∧ mo.calls.length = limit := by
  constructor
  · rintro ⟨mo, hreached, method, values, htask, hle⟩
    have hcounted : mo.Counted limit := Reached.counted hreached
    -- nothing but an attempt leads to a call
    cases hreached with
    | refl => cases htask
    | @tail before _ hbefore hlast =>
      cases hlast with
      | attempt hcalls h =>
        refine ⟨_, hbefore, ⟨_, _, _, _, _, rfl, hcalls, prepare_eq_ok_iff.1 h⟩, ?_⟩
        exact Nat.le_antisymm hcounted.le (hle.trans_eq hcounted.depth)
      | _ => cases htask
  · rintro ⟨⟨calls, task, ref, m⟩, hreached, ⟨s, name, args, method, values, htask, hcalls,
      hfound⟩, hlength⟩
    obtain rfl : task = .statement s := htask
    have hdepth : m.depth = calls.length := (Reached.counted hreached).depth
    have hcall := hreached.tail (.attempt hcalls (prepare_eq_ok_iff.2 hfound))
    exact ⟨_, hcall, method, values, rfl, (hdepth.trans hlength).ge⟩

/-- The moment at which the part of a statement starts that does this. -/
def part? (calls : List Method) (ref : ScopeRef) (m : Machine σ) : Action → Option (Moment σ)
  | .call method values _ => some ⟨calls, .call method values, ref, m⟩
  | .run statements => some ⟨calls, .body statements, ref, m⟩
  | .loop test body => some ⟨calls, .rounds test body, m.scopes.next,
      { m with scopes := m.scopes.push (some ref) }⟩
  | _ => none

/-- A statement leads to what it is about to do. -/
theorem leads_of_action {calls : List Method} {ref : ScopeRef} {m : Machine σ} {c : Chain}
    (hshows : m.scopes.Shows ref c) {s : Statement} {a : Action} {mo : Moment σ}
    (haction : c.action p s = .ok a) (hpart : part? calls ref m a = some mo) :
    Leads p limit ⟨calls, .statement s, ref, m⟩ mo := by
  cases Chain.acts_of_action haction with
  | @call _ name args method values _ hcalls hmethod harity hvalues =>
    obtain rfl := Option.some.inj hpart
    have hresolved : resolveAll m.scopes ref args = .ok values :=
      (resolveAll_eq hshows args).trans hvalues
    exact .attempt hcalls (prepare_eq_ok_iff.2 ⟨hmethod, harity, hresolved⟩)
  | run hv hchosen =>
    obtain rfl := Option.some.inj hpart
    exact .branch (hshows.get ▸ hv) hchosen
  | loop =>
    obtain rfl := Option.some.inj hpart
    exact .loop
  | _ => cases hpart

/-- **A run that exceeds the limit comes to a call beyond it.** -/
theorem overruns_of_runs {depth n : Nat} {task : Task} {w w' : World σ} {r : Ending}
    (h : Runs p limit depth task w r w') (hr : r = .error (.callDepthExceeded n))
    {st : ScopeStack} {ref : ScopeRef} (hshows : st.Shows ref w.chain) (calls : List Method) :
    n = limit ∧ Overruns p limit ⟨calls, task, ref, { scopes := st, depth, out := w.out }⟩ := by
  -- going down to the part that failed; what ran before it is realized by a machine
  induction h generalizing st ref calls with
  | refuse h =>
    cases hr
    exact absurd h (Chain.action_shallow _ _ _ n)
  | failWrite => cases hr
  | failCall h _ ih | branch h _ ih =>
    obtain ⟨rfl, hpart⟩ := ih hr hshows calls
    exact ⟨rfl, (leads_of_action hshows h rfl).overruns hpart⟩
  | loop h _ ih =>
    obtain ⟨rfl, hpart⟩ := ih hr hshows.push_child calls
    exact ⟨rfl, (leads_of_action hshows h rfl).overruns hpart⟩
  | cons hfirst _ _ ih₂ =>
    obtain ⟨fuel, st', hdone, hshows', -⟩ := realized hfirst hshows
    obtain ⟨rfl, hrest⟩ := ih₂ hr hshows' calls
    exact ⟨rfl, (Leads.rest hdone).overruns hrest⟩
  | stop _ _ ih =>
    obtain ⟨rfl, hfirst⟩ := ih hr hshows calls
    exact ⟨rfl, Leads.first.overruns hfirst⟩
  | failTest h =>
    cases hr
    exact absurd h (Chain.get_shallow _ _ n)
  | round htest hn hbody _ _ ih₂ =>
    obtain ⟨fuel, st', hdone, hshows', -⟩ := realized hbody hshows
    obtain ⟨rfl, hrounds⟩ := ih₂ hr hshows' calls
    exact ⟨rfl, (Leads.again (hshows.get ▸ htest) hn hdone).overruns hrounds⟩
  | leave htest hn _ _ ih =>
    obtain ⟨rfl, hbody⟩ := ih hr hshows calls
    exact ⟨rfl, (Leads.round (hshows.get ▸ htest) hn).overruns hbody⟩
  | tooDeep h =>
    cases hr
    exact ⟨rfl, _, .refl, _, _, rfl, h⟩
  | @call depth method values c out r c' out' h _ ih =>
    have hr : r = .error (.callDepthExceeded n) := by
      cases r with
      | ok flow => cases hr
      | error e => exact hr
    obtain ⟨rfl, hbody⟩ := ih hr (shows_callee method values { scopes := st, depth, out })
      (method :: calls)
    exact ⟨rfl, (Leads.enter h).overruns hbody⟩
  | _ => cases hr

end Moment

end Showtime
