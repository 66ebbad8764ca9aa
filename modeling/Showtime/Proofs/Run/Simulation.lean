/-
# Machines follow the plain semantics

A machine that runs in a scope of its stack and the plain semantics on the chain
that the scope shows agree, both ways.

* What a machine finishes is a run on the chain (`runStatements_sound`,
  `runMethod_sound`).
* Every run on the chain is finished by the machine with enough fuel
  (`realized`).

Either way the scope shows the chain of the run afterwards, other scopes are as
before, and as many calls are active as before.  A method starts on a scope
without a parent, so a call leaves the whole stack as it was.
-/

import Showtime.Proofs.Run.Statement

namespace Showtime

open ScopeStack (ChangesWithin)

variable {σ : Type} {p : Program} {limit : Nat}

/-! ### Calls and their values -/

/-- Parameters are bound in the scope of the method. -/
theorem ScopeStack.Shows.bindParams {st : ScopeStack} {ref : ScopeRef} (params : List String)
    (values : List Int64) {vars : Vars} (h : st.Shows ref (.root vars)) :
    (Eval.bindParams ref params values st).Shows ref (.root ((params.zip values).foldl
        (fun vars binding => vars.insert binding.1 binding.2) vars)) ∧
      ChangesWithin ref st (Eval.bindParams ref params values st) := by
  induction params generalizing values st vars with
  | nil => exact ⟨h, .refl ref st⟩
  | cons name names ih =>
    cases values with
    | nil => exact ⟨h, .refl ref st⟩
    | cons value values =>
      obtain ⟨hshows, hwithin⟩ := ih values (h.declare name value)
      exact ⟨hshows, (ScopeStack.changesWithin_declare st (.here ref) name value).trans hwithin⟩

namespace Eval

/-- The value of a call goes to its destination. -/
theorem receive_done {st : ScopeStack} {ref : ScopeRef} {c : Chain} (h : st.Shows ref c)
    (value : Int64) (destination : Option String) (depth : Nat) (out : σ) :
    ∃ st', receive ref value destination { scopes := st, depth, out } =
        .done () { scopes := st', depth, out } ∧
      st'.Shows ref (c.receive value destination) ∧ ChangesWithin ref st st' := by
  cases destination with
  | none => exact ⟨st, rfl, h, .refl ref st⟩
  | some name =>
    have hset := h.set name value
    have hsome := c.set?_isSome name value
    rw [receive, assignResult, Chain.receive, Chain.assign]
    simp only [h.contains]
    cases hc : c.set? name value with
    | some c' =>
      rw [hc] at hset hsome
      obtain ⟨owner, hreach, hset, hshows⟩ := hset
      refine ⟨_, ?_, hshows, ScopeStack.changesWithin_declare st hreach name value⟩
      rw [← hsome, Option.isSome_some, if_pos rfl, Exec.set, hset]
    | none =>
      rw [hc] at hsome
      refine ⟨_, ?_, h.declare name value,
        ScopeStack.changesWithin_declare st (.here ref) name value⟩
      rw [← hsome, Option.isSome_none, if_neg Bool.false_ne_true, Exec.declare]

/-- The machine at the start of the body of a method. -/
def callee (method : Method) (values : List Int64) (m : Machine σ) : Machine σ :=
  { scopes := bindParams m.scopes.next method.params values (m.scopes.push none)
    depth := m.depth + 1
    out := m.out }

/-- A method sees its parameters. -/
theorem shows_callee (method : Method) (values : List Int64) (m : Machine σ) :
    (callee method values m).scopes.Shows m.scopes.next
      (.root (Vars.ofParams method.params values)) :=
  ((ScopeStack.shows_push_none m.scopes).bindParams method.params values).1

/-- To start a call changes nothing but the fresh scope. -/
theorem changesWithin_callee (method : Method) (values : List Int64) (m : Machine σ) :
    ChangesWithin m.scopes.next (m.scopes.push none) (callee method values m).scopes :=
  ((ScopeStack.shows_push_none m.scopes).bindParams method.params values).2

/-- The machine after a call that has ended so. -/
def afterCall (m m' : Machine σ) : Machine σ :=
  { scopes := m'.scopes.pop m.scopes.next, depth := m'.depth - 1, out := m'.out }

section

variable [Sink σ]

/-- A call runs the body of the method, unless too many calls are active. -/
theorem runMethod_succ (fuel : Nat) (method : Method) (values : List Int64) {m : Machine σ}
    (h : m.depth < limit) :
    runMethod p limit (fuel + 1) method values m =
      (runStatements p (runMethod p limit fuel) fuel m.scopes.next method.body
        (callee method values m)).map Flow.value (afterCall m) := by
  obtain ⟨st, depth, out⟩ := m
  simp only [runMethod, if_neg (Nat.not_le.2 h), Exec.withCall, Exec.withScope, callee]
  cases runStatements p (runMethod p limit fuel) fuel st.next method.body
    { scopes := bindParams st.next method.params values (st.push none)
      depth := depth + 1
      out } <;> rfl

/-- A call fails when there are as many as may be. -/
theorem runMethod_succ_of_le (fuel : Nat) (method : Method) (values : List Int64) {m : Machine σ}
    (h : limit ≤ m.depth) :
    runMethod p limit (fuel + 1) method values m = .failed (.callDepthExceeded limit) m := by
  simp only [runMethod, if_pos h]

/-! ### From a machine to a run -/

/-- A machine has run a task to its end as the plain semantics does on a chain. -/
def Follows (p : Program) (limit : Nat) (ref : ScopeRef) (task : Task) (c : Chain)
    (m : Machine σ) (r : Ending) (m' : Machine σ) : Prop :=
  ∃ c', Runs p limit m.depth task ⟨c, m.out⟩ r ⟨c', m'.out⟩ ∧ m'.scopes.Shows ref c' ∧
    ChangesWithin ref m.scopes m'.scopes ∧ m'.depth = m.depth

/-- Whatever a step in a scope finishes is a run of the task. -/
def Sound (p : Program) (limit : Nat) (ref : ScopeRef) (task : Task) (x : Exec σ Flow) : Prop :=
  ∀ {c m r m'}, m.scopes.Shows ref c → x m = .finished r m' → Follows p limit ref task c m r m'

/-- Whatever a call finishes is a run of the method, and the stack is as before. -/
def InvokeSound (p : Program) (limit : Nat) (invoke : Invoke σ) : Prop :=
  ∀ {method values m r m'}, invoke method values m = .finished r m' →
    (∀ c, Runs p limit m.depth (.call method values) ⟨c, m.out⟩ (r.map .giveBack) ⟨c, m'.out⟩) ∧
      m'.scopes = m.scopes ∧ m'.depth = m.depth

/-- The rounds of a loop, the body being sound. -/
theorem iterate_sound {ref : ScopeRef} {statements : List Statement} {body : Exec σ Flow}
    (hbody : Sound p limit ref (.body statements) body) (test : Value) (rounds : Nat) :
    Sound p limit ref (.rounds test statements) (iterate test ref body rounds) := by
  -- on the rounds that the fuel allows; with none left nothing has finished
  induction rounds with
  | zero =>
    intro c m r m' _ h
    exact absurd h.symm (Outcome.finished_ne_exhausted r m')
  | succ rounds ih =>
    intro c m r m' hshows h
    rw [iterate_succ] at h
    cases htest : c.get test with
    | error e =>
      rw [Exec.bind_failed (resolve_failed hshows htest), ← Outcome.finished_error,
        Outcome.finished_inj] at h
      obtain ⟨rfl, rfl⟩ := h
      exact ⟨c, .failTest htest, hshows, .refl ref _, rfl⟩
    | ok n =>
      rw [Exec.bind_done (resolve_done hshows htest)] at h
      by_cases hn : n = 0
      · rw [if_pos hn, Exec.pure_apply, ← Outcome.finished_ok, Outcome.finished_inj] at h
        obtain ⟨rfl, rfl⟩ := h
        exact ⟨c, .last (hn ▸ htest), hshows, .refl ref _, rfl⟩
      · rw [if_neg hn] at h
        rcases Exec.andThen_cases h with ⟨m₁, hnext, hrest⟩ | ⟨hstop, hr⟩
        · obtain ⟨c₁, hfirst, hshows₁, hwithin₁, hdepth₁⟩ := hbody (r := .ok .next) hshows hnext
          obtain ⟨c', hrest, hshows', hwithin', hdepth'⟩ := ih hshows₁ hrest
          rw [hdepth₁] at hrest
          exact ⟨c', .round htest hn hfirst hrest, hshows', hwithin₁.trans hwithin',
            hdepth'.trans hdepth₁⟩
        · obtain ⟨c', hlast, hsame⟩ := hbody hshows hstop
          exact ⟨c', .leave htest hn hlast hr, hsame⟩

/-- A loop: its scope is gone afterwards, with all that was declared in it. -/
theorem loop_sound {c : Chain} {m m' : Machine σ} {ref : ScopeRef} {r : Ending} {s : Statement}
    {test : Value} {body : List Statement} {x : ScopeRef → Exec σ Flow}
    (haction : c.action p s = .ok (.loop test body))
    (hx : ∀ child, Sound p limit child (.rounds test body) (x child))
    (hshows : m.scopes.Shows ref c) (h : Exec.withScope (some ref) x m = .finished r m') :
    Follows p limit ref (.statement s) c m r m' := by
  rw [Exec.withScope_eq] at h
  obtain ⟨r, m₁, hx₁, rfl, rfl⟩ := Outcome.map_eq_finished h
  obtain ⟨c₁, hruns, hshows₁, hwithin, hdepth⟩ := hx _ hshows.push_child hx₁
  obtain ⟨vars, c', rfl, hshows'⟩ := hshows.pop hwithin hshows₁
  rw [Except.map_id, id]
  exact ⟨c', .loop haction hruns, hshows', hwithin.pop hshows, hdepth⟩

/-- A line that is written, or not. -/
theorem write_sound {c : Chain} {m m' : Machine σ} {ref : ScopeRef} {r : Ending} {s : Statement}
    {line : String} (haction : c.action p s = .ok (.write line)) (hshows : m.scopes.Shows ref c)
    (h : (Exec.writeLine line >>= fun _ => pure Flow.next) m = .finished r m') :
    Follows p limit ref (.statement s) c m r m' := by
  obtain ⟨st, depth, out⟩ := m
  rcases hwrite : Sink.write out (line ++ "\n").toUTF8 with ⟨failure, out'⟩
  cases failure with
  | none =>
    rw [Exec.bind_done (by rw [Exec.writeLine, hwrite]), Exec.pure_apply, ← Outcome.finished_ok,
      Outcome.finished_inj] at h
    obtain ⟨rfl, rfl⟩ := h
    exact ⟨c, .write haction hwrite, hshows, .refl ref st, rfl⟩
  | some reason =>
    rw [Exec.bind_failed (by rw [Exec.writeLine, hwrite]), ← Outcome.finished_error,
      Outcome.finished_inj] at h
    obtain ⟨rfl, rfl⟩ := h
    exact ⟨c, .failWrite haction hwrite, hshows, .refl ref st, rfl⟩

/-- A call and what becomes of its value. -/
theorem call_sound {invoke : Invoke σ} (hinvoke : InvokeSound p limit invoke) {c : Chain}
    {m m' : Machine σ} {ref : ScopeRef} {r : Ending} {s : Statement} {method : Method}
    {values : List Int64} {destination : Option String}
    (haction : c.action p s = .ok (.call method values destination))
    (hshows : m.scopes.Shows ref c)
    (h : (invoke method values >>= fun value =>
      receive ref value destination >>= fun _ => pure Flow.next) m = .finished r m') :
    Follows p limit ref (.statement s) c m r m' := by
  rcases (invoke method values m).eq_exhausted_or with hx | ⟨r₁, m₁, hx⟩
  · rw [Exec.bind_exhausted hx] at h
    exact absurd h.symm (Outcome.finished_ne_exhausted r m')
  obtain ⟨hruns, hscopes, hdepth⟩ := hinvoke hx
  obtain ⟨st, depth, out⟩ := m₁
  obtain rfl : st = m.scopes := hscopes
  obtain rfl : depth = m.depth := hdepth
  cases r₁ with
  | error e =>
    rw [Exec.bind_failed hx, ← Outcome.finished_error, Outcome.finished_inj] at h
    obtain ⟨rfl, rfl⟩ := h
    exact ⟨c, .failCall haction (hruns c), hshows, .refl ref _, rfl⟩
  | ok value =>
    obtain ⟨st', hreceive, hshows', hwithin⟩ := receive_done hshows value destination m.depth out
    rw [Exec.bind_done hx, Exec.bind_done hreceive, Exec.pure_apply, ← Outcome.finished_ok,
      Outcome.finished_inj] at h
    obtain ⟨rfl, rfl⟩ := h
    exact ⟨_, .receive haction (hruns c), hshows', hwithin, rfl⟩

mutual

/-- A statement runs as the plain semantics says, with any fuel that is enough. -/
theorem runStatement_sound {invoke : Invoke σ} (hinvoke : InvokeSound p limit invoke) (fuel : Nat)
    (ref : ScopeRef) (s : Statement) :
    Sound p limit ref (.statement s) (runStatement p invoke fuel ref s) := by
  intro c m r m' hshows h
  have hperforms : Performs p invoke fuel ref m (runStatement p invoke fuel ref s m)
    (c.action p s) := runStatement_performs hshows s
  rw [h] at hperforms
  -- what the statement is about to do on the chain chooses the rule
  match haction : c.action p s with
  | .error e =>
    rw [haction] at hperforms
    obtain ⟨rfl, rfl⟩ := Outcome.finished_inj.1 (hperforms.trans (Outcome.finished_error e m).symm)
    exact ⟨c, .refuse haction, hshows, .refl ref _, rfl⟩
  | .ok (.write line) =>
    rw [haction] at hperforms
    exact write_sound haction hshows hperforms.symm
  | .ok (.update c') =>
    rw [haction] at hperforms
    obtain ⟨st, ho, hshows', hwithin⟩ := hperforms
    obtain ⟨rfl, rfl⟩ := Outcome.finished_inj.1 (ho.trans (Outcome.finished_ok _ _).symm)
    exact ⟨c', .update haction, hshows', hwithin, rfl⟩
  | .ok (.giveBack value) =>
    rw [haction] at hperforms
    obtain ⟨rfl, rfl⟩ := Outcome.finished_inj.1 (hperforms.trans (Outcome.finished_ok _ _).symm)
    exact ⟨c, .giveBack haction, hshows, .refl ref _, rfl⟩
  | .ok (.call method values destination) =>
    rw [haction] at hperforms
    exact call_sound hinvoke haction hshows hperforms.symm
  | .ok (.run statements) =>
    rw [haction] at hperforms
    have hlt := Chain.sizeOf_nested haction
    obtain ⟨c', hruns, hsame⟩ :=
      runStatements_sound hinvoke fuel ref statements hshows hperforms.symm
    exact ⟨c', .branch haction hruns, hsame⟩
  | .ok (.loop test body) =>
    rw [haction] at hperforms
    have hlt := Chain.sizeOf_nested haction
    exact loop_sound haction
      (fun child => iterate_sound (runStatements_sound hinvoke fuel child body) test fuel) hshows
      hperforms.symm
termination_by sizeOf s

/-- A list of statements runs as the plain semantics says. -/
theorem runStatements_sound {invoke : Invoke σ} (hinvoke : InvokeSound p limit invoke) (fuel : Nat)
    (ref : ScopeRef) (statements : List Statement) :
    Sound p limit ref (.body statements) (runStatements p invoke fuel ref statements) := by
  intro c m r m' hshows h
  match statements with
  | [] =>
    rw [runStatements, Exec.pure_apply, ← Outcome.finished_ok, Outcome.finished_inj] at h
    obtain ⟨rfl, rfl⟩ := h
    exact ⟨c, .nil, hshows, .refl ref _, rfl⟩
  | s :: rest =>
    rw [runStatements_cons] at h
    rcases Exec.andThen_cases h with ⟨m₁, hnext, hrest⟩ | ⟨hstop, hr⟩
    · obtain ⟨c₁, hfirst, hshows₁, hwithin₁, hdepth₁⟩ :=
        runStatement_sound hinvoke fuel ref s (r := .ok .next) hshows hnext
      obtain ⟨c', hrest, hshows', hwithin', hdepth'⟩ :=
        runStatements_sound hinvoke fuel ref rest hshows₁ hrest
      rw [hdepth₁] at hrest
      exact ⟨c', .cons hfirst hrest, hshows', hwithin₁.trans hwithin', hdepth'.trans hdepth₁⟩
    · obtain ⟨c', hlast, hsame⟩ := runStatement_sound hinvoke fuel ref s hshows hstop
      exact ⟨c', .stop hlast hr, hsame⟩
termination_by sizeOf statements

end

/-- **What a call finishes is a run of the method, and the stack is as before.** -/
theorem runMethod_sound (fuel : Nat) : InvokeSound (σ := σ) p limit (runMethod p limit fuel) := by
  induction fuel with
  | zero =>
    intro method values m r m' h
    exact absurd h.symm (Outcome.finished_ne_exhausted r m')
  | succ fuel ih =>
    intro method values m r m' h
    rcases Nat.lt_or_ge m.depth limit with hlt | hge
    · rw [runMethod_succ fuel method values hlt] at h
      obtain ⟨r₁, m₁, hbody, rfl, rfl⟩ := Outcome.map_eq_finished h
      obtain ⟨c', hruns, -, hwithin, hdepth⟩ :=
        runStatements_sound ih fuel _ method.body (shows_callee method values m) hbody
      refine ⟨fun c => ?_, ((changesWithin_callee method values m).trans hwithin).pop_eq, ?_⟩
      · rw [show (r₁.map Flow.value).map Flow.giveBack = Ending.ofBody r₁ by cases r₁ <;> rfl]
        exact .call hlt hruns
      · rw [afterCall, hdepth]
        rfl
    · rw [runMethod_succ_of_le fuel method values hge, ← Outcome.finished_error,
        Outcome.finished_inj] at h
      obtain ⟨rfl, rfl⟩ := h
      exact ⟨fun c => .tooDeep hge, rfl, rfl⟩

/-! ### From a run to a machine -/

/-- What a machine does for a task, in a scope. -/
def perform (p : Program) (limit fuel : Nat) (ref : ScopeRef) : Task → Exec σ Flow
  | .statement s => runStatement p (runMethod p limit fuel) fuel ref s
  | .body statements => runStatements p (runMethod p limit fuel) fuel ref statements
  | .rounds test body =>
    iterate test ref (runStatements p (runMethod p limit fuel) fuel ref body) fuel
  | .call method values => fun m => (runMethod p limit fuel method values m).map .giveBack id

/-- To perform a call is to run the method. -/
theorem perform_call (fuel : Nat) (ref : ScopeRef) (method : Method) (values : List Int64)
    (m : Machine σ) : perform p limit fuel ref (.call method values) m =
      (runMethod p limit fuel method values m).map .giveBack id := rfl

/-- To perform statements is to perform the first and then the others. -/
theorem perform_cons (fuel : Nat) (ref : ScopeRef) (s : Statement) (rest : List Statement) :
    perform (σ := σ) p limit fuel ref (.body (s :: rest)) =
      (perform p limit fuel ref (.statement s)).andThen (perform p limit fuel ref (.body rest)) :=
  runStatements_cons ..

/-- To perform rounds is to look at the test, and to perform one round and then the
others. -/
theorem perform_rounds (fuel : Nat) (ref : ScopeRef) (test : Value) (body : List Statement) :
    perform (σ := σ) p limit (fuel + 1) ref (.rounds test body) =
      Exec.resolve ref test >>= fun n => if n = 0 then pure .next
        else (perform p limit (fuel + 1) ref (.body body)).andThen
          (iterate test ref (perform p limit (fuel + 1) ref (.body body)) fuel) := rfl

/-- A task goes further with more fuel. -/
theorem perform_extended {fuel fuel' : Nat} (hle : fuel ≤ fuel') (ref : ScopeRef) (task : Task) :
    (perform (σ := σ) p limit fuel ref task).ExtendedBy (perform p limit fuel' ref task) := by
  have hinvoke : InvokeExtendedBy (runMethod (σ := σ) p limit fuel) (runMethod p limit fuel') :=
    runMethod_extended limit hle
  cases task with
  | statement s => exact runStatement_extended hinvoke hle ref s
  | body statements => exact runStatements_extended hinvoke hle ref statements
  | rounds test body =>
    exact iterate_extended (runStatements_extended hinvoke hle ref body) test ref hle
  | call method values =>
    intro m
    rcases hinvoke method values m with h | h
    · exact .inl (by rw [perform_call, h, Outcome.map])
    · exact .inr (by rw [perform_call, perform_call, h])

/-- A task finished with some fuel is finished with more. -/
theorem perform_of_le {fuel fuel' : Nat} (hle : fuel ≤ fuel') {ref : ScopeRef} {task : Task}
    {m m' : Machine σ} {r : Ending} (h : perform p limit fuel ref task m = .finished r m') :
    perform p limit fuel' ref task m = .finished r m' :=
  (perform_extended hle ref task).finished h

/-- A machine can do for a task what the plain semantics does. -/
def Realized (p : Program) (limit depth : Nat) (task : Task) (w : World σ) (r : Ending)
    (w' : World σ) : Prop :=
  ∀ {st ref}, st.Shows ref w.chain →
    ∃ fuel st', perform p limit fuel ref task { scopes := st, depth, out := w.out } =
        .finished r { scopes := st', depth, out := w'.out } ∧
      st'.Shows ref w'.chain ∧ ChangesWithin ref st st'

/-- A call is realized when the body of the method is, on any stack. -/
theorem call_realized {depth : Nat} {method : Method} {values : List Int64} {out : σ} {r : Ending}
    {w' : World σ} (hlt : depth < limit)
    (hbody : Realized p limit (depth + 1) (.body method.body)
      ⟨.root (Vars.ofParams method.params values), out⟩ r w') (st : ScopeStack) (ref : ScopeRef) :
    ∃ fuel, perform p limit fuel ref (.call method values) { scopes := st, depth, out } =
      .finished r.ofBody { scopes := st, depth, out := w'.out } := by
  let m : Machine σ := { scopes := st, depth, out }
  obtain ⟨fuel, st', hrun, -, hwithin⟩ := hbody (shows_callee method values m)
  have hstack : st'.pop st.next = st :=
    ((changesWithin_callee method values m).trans hwithin).pop_eq
  have hrun : runStatements p (runMethod p limit fuel) fuel st.next method.body
      (callee method values m) =
        .finished r { scopes := st', depth := depth + 1, out := w'.out } := hrun
  refine ⟨fuel + 1, ?_⟩
  rw [perform_call, runMethod_succ fuel method values hlt, hrun, Outcome.map_finished,
    Outcome.map_finished, afterCall]
  simp only [hstack, Nat.add_sub_cancel, id]
  cases r <;> rfl

/-- A loop runs its rounds in a scope of its own, which is gone afterwards. -/
theorem loop_realized {depth : Nat} {s : Statement} {c c' : Chain} {out out' : σ} {test : Value}
    {body : List Statement} {vars : Vars} {r : Ending}
    (haction : c.action p s = .ok (.loop test body))
    (hrounds : Realized p limit depth (.rounds test body) ⟨c.enter, out⟩ r
      ⟨.child vars c', out'⟩) :
    Realized p limit depth (.statement s) ⟨c, out⟩ r ⟨c', out'⟩ := by
  intro st ref hshows
  obtain ⟨fuel, st₁, hrun, hshows₁, hwithin⟩ := hrounds hshows.push_child
  obtain ⟨vars', c'', heq, hshows'⟩ := hshows.pop hwithin hshows₁
  obtain ⟨rfl, rfl⟩ := Chain.child.inj heq
  refine ⟨fuel, st₁.pop st.next, ?_, hshows', hwithin.pop hshows⟩
  have hperforms : Performs p (runMethod p limit fuel) fuel ref { scopes := st, depth, out }
    (perform p limit fuel ref (.statement s) { scopes := st, depth, out }) (c.action p s) :=
      runStatement_performs hshows s
  rw [haction, Performs, Exec.withScope_eq] at hperforms
  rw [perform] at hrun
  rw [hperforms, hrun, Outcome.map_finished]
  cases r <;> rfl

/-- A call that gives back a value gives it to the destination. -/
theorem receive_realized {depth : Nat} {s : Statement} {c : Chain} {out out' : σ}
    {method : Method} {values : List Int64} {destination : Option String} {value : Int64}
    (haction : c.action p s = .ok (.call method values destination))
    (hcall : Realized p limit depth (.call method values) ⟨c, out⟩ (.ok (.giveBack value))
      ⟨c, out'⟩) :
    Realized p limit depth (.statement s) ⟨c, out⟩ (.ok .next)
      ⟨c.receive value destination, out'⟩ := by
  intro st ref hshows
  obtain ⟨fuel, st₁, hrun, hshows₁, hwithin⟩ := hcall hshows
  obtain ⟨r', m', hrun, hr, rfl⟩ := Outcome.map_eq_finished hrun
  obtain ⟨rfl⟩ : r' = .ok value := by
    cases r' with
    | error e => cases hr
    | ok value' =>
      cases hr
      rfl
  obtain ⟨st', hreceive, hshows', hwithin'⟩ := receive_done hshows₁ value destination depth out'
  refine ⟨fuel, st', ?_, hshows', hwithin.trans hwithin'⟩
  have hperforms : Performs p (runMethod p limit fuel) fuel ref { scopes := st, depth, out }
    (perform p limit fuel ref (.statement s) { scopes := st, depth, out }) (c.action p s) :=
      runStatement_performs hshows s
  rw [haction] at hperforms
  exact hperforms.trans ((Exec.bind_done hrun).trans (Exec.bind_done hreceive))

/-- Statements one after another, each with the fuel that it takes. -/
theorem cons_realized {depth : Nat} {s : Statement} {rest : List Statement} {w w' w'' : World σ}
    {r : Ending} (hfirst : Realized p limit depth (.statement s) w (.ok .next) w')
    (hrest : Realized p limit depth (.body rest) w' r w'') :
    Realized p limit depth (.body (s :: rest)) w r w'' := by
  intro st ref hshows
  obtain ⟨fuel₁, st₁, hrun₁, hshows₁, hwithin₁⟩ := hfirst hshows
  obtain ⟨fuel₂, st₂, hrun₂, hshows₂, hwithin₂⟩ := hrest hshows₁
  refine ⟨max fuel₁ fuel₂, st₂, ?_, hshows₂, hwithin₁.trans hwithin₂⟩
  rw [perform_cons, Exec.andThen_next (perform_of_le (le_max_left fuel₁ fuel₂) hrun₁)]
  exact perform_of_le (le_max_right fuel₁ fuel₂) hrun₂

/-- The rest of a list does not run behind a return or a failure. -/
theorem stop_realized {depth : Nat} {s : Statement} {rest : List Statement} {w w' : World σ}
    {r : Ending} (hfirst : Realized p limit depth (.statement s) w r w') (hr : r ≠ .ok .next) :
    Realized p limit depth (.body (s :: rest)) w r w' := by
  intro st ref hshows
  obtain ⟨fuel, st', hrun, hsame⟩ := hfirst hshows
  refine ⟨fuel, st', ?_, hsame⟩
  rw [perform_cons]
  exact Exec.andThen_stop hrun hr

/-- While the test is not zero, there is one more round. -/
theorem round_realized {depth : Nat} {test : Value} {body : List Statement} {c : Chain} {out : σ}
    {n : Int64} {w' w'' : World σ} {r : Ending} (htest : c.get test = .ok n) (hn : n ≠ 0)
    (hbody : Realized p limit depth (.body body) ⟨c, out⟩ (.ok .next) w')
    (hrounds : Realized p limit depth (.rounds test body) w' r w'') :
    Realized p limit depth (.rounds test body) ⟨c, out⟩ r w'' := by
  intro st ref hshows
  obtain ⟨fuel₁, st₁, hrun₁, hshows₁, hwithin₁⟩ := hbody hshows
  obtain ⟨fuel₂, st₂, hrun₂, hshows₂, hwithin₂⟩ := hrounds hshows₁
  have hle₁ : fuel₁ ≤ max fuel₁ fuel₂ + 1 := (le_max_left _ _).trans (Nat.le_succ _)
  have hle₂ : fuel₂ ≤ max fuel₁ fuel₂ + 1 := (le_max_right _ _).trans (Nat.le_succ _)
  refine ⟨max fuel₁ fuel₂ + 1, st₂, ?_, hshows₂, hwithin₁.trans hwithin₂⟩
  rw [perform_rounds, Exec.bind_done (resolve_done hshows htest), if_neg hn,
    Exec.andThen_next (perform_of_le hle₁ hrun₁)]
  -- the rounds that remain have one round less to go, but bodies with more fuel
  exact (iterate_extended (perform_extended hle₂ ref (.body body)) test ref
    (le_max_right _ _)).finished hrun₂

/-- A round that returns or fails is the last. -/
theorem leave_realized {depth : Nat} {test : Value} {body : List Statement} {c : Chain} {out : σ}
    {n : Int64} {w' : World σ} {r : Ending} (htest : c.get test = .ok n) (hn : n ≠ 0)
    (hbody : Realized p limit depth (.body body) ⟨c, out⟩ r w') (hr : r ≠ .ok .next) :
    Realized p limit depth (.rounds test body) ⟨c, out⟩ r w' := by
  intro st ref hshows
  obtain ⟨fuel, st', hrun, hsame⟩ := hbody hshows
  refine ⟨fuel + 1, st', ?_, hsame⟩
  rw [perform_rounds, Exec.bind_done (resolve_done hshows htest), if_neg hn]
  exact Exec.andThen_stop (perform_of_le (Nat.le_succ fuel) hrun) hr

/-- **Every run is finished by a machine.**  With enough fuel a machine does what
the plain semantics does on the chain that its scope shows. -/
theorem realized {depth : Nat} {task : Task} {w w' : World σ} {r : Ending}
    (h : Runs p limit depth task w r w') : Realized p limit depth task w r w' := by
  -- a statement without a part that runs takes no fuel
  have simple {depth : Nat} {s : Statement} {st : ScopeStack} {ref : ScopeRef} {c : Chain} {out : σ}
      {a : Except RuntimeError Action} (fuel : Nat) (hshows : st.Shows ref c)
      (haction : c.action p s = a) :
      Performs p (runMethod p limit fuel) fuel ref { scopes := st, depth, out }
        (perform p limit fuel ref (.statement s) { scopes := st, depth, out }) a :=
    haction ▸ runStatement_performs hshows s
  induction h with
  | refuse h => exact fun hshows => ⟨0, _, simple 0 hshows h, hshows, .refl _ _⟩
  | write h hwrite =>
    intro st ref hshows
    refine ⟨0, st, (simple 0 hshows h).trans ?_, hshows, .refl ref st⟩
    exact Exec.bind_done (by rw [Exec.writeLine, hwrite])
  | failWrite h hwrite =>
    intro st ref hshows
    refine ⟨0, st, (simple 0 hshows h).trans ?_, hshows, .refl ref st⟩
    exact Exec.bind_failed (by rw [Exec.writeLine, hwrite])
  | update h =>
    intro st ref hshows
    obtain ⟨st', hrun, hsame⟩ := simple 0 hshows h
    exact ⟨0, st', hrun, hsame⟩
  | giveBack h => exact fun hshows => ⟨0, _, simple 0 hshows h, hshows, .refl _ _⟩
  | receive h hcall ih => exact receive_realized h ih
  | failCall h hcall ih =>
    intro st ref hshows
    obtain ⟨fuel, st', hrun, hsame⟩ := ih hshows
    obtain ⟨r', m', hrun, hr, rfl⟩ := Outcome.map_eq_finished hrun
    refine ⟨fuel, st', (simple fuel hshows h).trans ?_, hsame⟩
    cases r' with
    | ok value => cases hr
    | error e' =>
      cases hr
      exact Exec.bind_failed hrun
  | branch h hbody ih =>
    intro st ref hshows
    obtain ⟨fuel, st', hrun, hsame⟩ := ih hshows
    exact ⟨fuel, st', (simple fuel hshows h).trans hrun, hsame⟩
  | loop h hrounds ih => exact loop_realized h ih
  | nil => exact fun hshows => ⟨0, _, by rw [perform, runStatements]; rfl, hshows, .refl _ _⟩
  | cons hfirst hrest ih₁ ih₂ => exact cons_realized ih₁ ih₂
  | stop hfirst hr ih => exact stop_realized ih hr
  | failTest h =>
    intro st ref hshows
    refine ⟨1, st, ?_, hshows, .refl ref st⟩
    rw [perform_rounds, Exec.bind_failed (resolve_failed hshows h)]
    rfl
  | last h =>
    intro st ref hshows
    refine ⟨1, st, ?_, hshows, .refl ref st⟩
    rw [perform_rounds, Exec.bind_done (resolve_done hshows h), if_pos rfl]
    rfl
  | round h hn hbody hrounds ih₁ ih₂ => exact round_realized h hn ih₁ ih₂
  | leave h hn hbody hr ih => exact leave_realized h hn ih hr
  | tooDeep h =>
    intro st ref hshows
    refine ⟨1, st, ?_, hshows, .refl ref st⟩
    rw [perform_call, runMethod_succ_of_le 0 _ _ h]
    rfl
  | call h hbody ih =>
    intro st ref hshows
    obtain ⟨fuel, hrun⟩ := call_realized h ih st ref
    exact ⟨fuel, st, hrun, hshows, .refl ref st⟩

end

end Eval
end Showtime
