/-
# Programs without loops stop

Two things can make a program go on for ever: a loop, and methods that call each
other.  The limit of active calls ends the second, and so a program without loops
always stops.

`finish` runs the tasks of such a program by well-founded recursion.  What gets
less is, first, the number of calls that may still become active and, while that
is the same, what there is of the task:

| from | to | what gets less |
| --- | --- | --- |
| a call | the body of the method | the calls that may still become active |
| statements | the first of them, the others | the statements |
| a conditional | the chosen branch | the statement |
| a call instruction | the call | the statement |

A machine has the same two reasons to stop.  After whatever a statement has
called, as many calls are active as before (`runStatements_stops`), and a call
takes no more fuel than there are calls left (`runMethod_stops`).  So fuel above
the limit is always enough, and what the machine finishes with it is what `finish`
gives.
-/

import Showtime.Proofs.Run.CutShort
import Showtime.Proofs.Run.Reuse

namespace Showtime

open Eval

/-! ### Programs without loops -/

namespace Statement

/-- The statement itself is a loop. -/
def isLoop : Statement → Bool
  | block .loop _ _ => true
  | _ => false

/-- Neither the statement nor one inside it is a loop. -/
def LoopFree (s : Statement) : Prop :=
  ∀ t ∈ s.preorder, t.isLoop = false

/-- The statements inside a statement can be gone through. -/
instance (s : Statement) : Decidable s.LoopFree :=
  inferInstanceAs (Decidable (∀ t ∈ s.preorder, t.isLoop = false))

/-- A loop is not free of loops, whatever its body. -/
theorem not_loopFree_loop (args : List Value) (body : List Statement) :
    ¬ (block .loop args body).LoopFree := by
  intro h
  have hloop : (block .loop args body).isLoop = false := h _ (by simp [preorder])
  cases hloop

/-- What is inside a statement of a body is inside the body. -/
theorem preorder_subset {s : Statement} {body : List Statement} (h : s ∈ body) :
    s.preorder ⊆ preorderAll body := by
  induction h with
  | head rest =>
    rw [preorderAll]
    exact List.subset_append_left _ _
  | tail first _ ih =>
    rw [preorderAll]
    exact List.subset_append_of_subset_right _ ih

/-- The statements of a block without loops have none. -/
theorem LoopFree.body {kind : BlockKind} {args : List Value} {body : List Statement}
    (h : (block kind args body).LoopFree) : ∀ s ∈ body, s.LoopFree := by
  intro s hs t ht
  refine h t ?_
  rw [preorder]
  exact List.mem_cons_of_mem _ (preorder_subset hs ht)

end Statement

/-- No method of the program has a loop. -/
structure Program.LoopFree (p : Program) : Prop where
  main : ∀ s ∈ p.main.body, s.LoopFree
  methods : ∀ method ∈ p.methods, ∀ s ∈ method.body, s.LoopFree

/-- The statements inside all methods can be gone through. -/
instance (p : Program) : Decidable p.LoopFree :=
  decidable_of_iff ((∀ s ∈ p.main.body, s.LoopFree) ∧
      ∀ method ∈ p.methods, ∀ s ∈ method.body, s.LoopFree)
    ⟨fun h => ⟨h.1, h.2⟩, fun h => ⟨h.main, h.methods⟩⟩

/-- Nothing that the task consists of is a loop. -/
def Task.LoopFree : Task → Prop
  | statement s => s.LoopFree
  | body statements => ∀ s ∈ statements, s.LoopFree
  | rounds _ _ => False
  | call method _ => ∀ s ∈ method.body, s.LoopFree

/-- What runs as a part of a statement without loops has none. -/
theorem loopFree_of_action {p : Program} (hp : p.LoopFree) {c : Chain} {s : Statement} {a : Action}
    {task : Task} (hs : s.LoopFree) (h : c.action p s = .ok a) (htask : a.task? = some task) :
    task.LoopFree := by
  cases Chain.acts_of_action h with
  | call _ hmethod =>
    obtain rfl := Option.some.inj htask
    exact hp.methods _ (List.mem_of_find?_eq_some hmethod)
  | run _ hchosen =>
    obtain rfl := Option.some.inj htask
    rcases mem_of_chosenBranch hchosen with rfl | ⟨kind, args, hmem⟩
    · nofun
    · exact (hs.body _ hmem).body
  | loop => exact absurd hs (Statement.not_loopFree_loop _ _)
  | _ => cases htask

/-! ### Running without fuel -/

/-- What gets less from a task to a part of it in the same method. -/
noncomputable def Task.weight : Task → Nat
  | statement s => sizeOf s
  | body statements => sizeOf statements
  | _ => 0

section

variable {σ : Type} [Sink σ] {p : Program}

/-- How a task of a program without loops ends, and what it leaves. -/
def finish (hp : p.LoopFree) (limit depth : Nat) (task : Task) (htask : task.LoopFree)
    (w : World σ) : Ending × World σ :=
  match task, htask, w with
  | .statement s, hs, ⟨c, out⟩ =>
    match h : c.action p s with
    | .error e => (.error e, ⟨c, out⟩)
    | .ok (.write line) =>
      match Sink.write out (line ++ "\n").toUTF8 with
      | (none, out) => (.ok .next, ⟨c, out⟩)
      | (some reason, out) => (.error (.io reason), ⟨c, out⟩)
    | .ok (.update c) => (.ok .next, ⟨c, out⟩)
    | .ok (.giveBack value) => (.ok (.giveBack value), ⟨c, out⟩)
    | .ok (.call method values destination) =>
      have hcall := loopFree_of_action hp hs h rfl
      match finish hp limit depth (.call method values) hcall ⟨c, out⟩ with
      | (.ok flow, ⟨c, out⟩) => (.ok .next, ⟨c.receive flow.value destination, out⟩)
      | (.error e, w) => (.error e, w)
    | .ok (.run statements) =>
      have hbranch := loopFree_of_action hp hs h rfl
      finish hp limit depth (.body statements) hbranch ⟨c, out⟩
    | .ok (.loop _ _) => (loopFree_of_action hp hs h rfl).elim
  | .body [], _, w => (.ok .next, w)
  | .body (s :: rest), hbody, w =>
    match finish hp limit depth (.statement s) (hbody s List.mem_cons_self) w with
    | (.ok .next, w) =>
      finish hp limit depth (.body rest) (fun t ht => hbody t (List.mem_cons_of_mem s ht)) w
    | (r, w) => (r, w)
  | .rounds _ _, h, _ => h.elim
  | .call method values, hbody, ⟨c, out⟩ =>
    if depth < limit then
      let (r, w) := finish hp limit (depth + 1) (.body method.body) hbody
        ⟨.root (Vars.ofParams method.params values), out⟩
      (r.ofBody, ⟨c, w.out⟩)
    else (.error (.callDepthExceeded limit), ⟨c, out⟩)
termination_by (limit - depth, task.weight)
decreasing_by
  · refine .right _ ?_
    cases s <;> simp only [Task.weight, Statement.expression.sizeOf_spec,
      Statement.block.sizeOf_spec] <;> omega
  · exact .right _ (Chain.sizeOf_nested h)
  · refine .right _ ?_
    simp only [Task.weight, List.cons.sizeOf_spec]
    omega
  · refine .right _ ?_
    simp only [Task.weight, List.cons.sizeOf_spec]
    omega
  · refine .left _ _ ?_
    omega

/-- A call that has not failed has given back a value. -/
theorem Runs.eq_giveBack_of_call {limit depth : Nat} {method : Method} {values : List Int64}
    {w w' : World σ} {r : Ending} {flow : Flow}
    (h : Runs p limit depth (.call method values) w r w') (hr : r = .ok flow) :
    flow = .giveBack flow.value := by
  cases h with
  | tooDeep => cases hr
  | @call _ _ _ _ _ r =>
    cases r with
    | error e => cases hr
    | ok inner =>
      obtain rfl := Except.ok.inj hr
      rfl

/-- **What a task without loops ends with is what the plain semantics says.** -/
theorem finish_runs (hp : p.LoopFree) (limit depth : Nat) (task : Task) (htask : task.LoopFree)
    (w : World σ) :
    Runs p limit depth task w (finish hp limit depth task htask w).1
      (finish hp limit depth task htask w).2 := by
  fun_induction finish with
  | case1 depth s _ c out e h => exact .refuse h
  | case2 depth s _ c out line h out' hwrite => exact .write h hwrite
  | case3 depth s _ c out line h reason out' hwrite => exact .failWrite h hwrite
  | case4 depth s _ c out c' h => exact .update h
  | case5 depth s _ c out value h => exact .giveBack h
  | case6 depth s _ c out method values destination h _ flow c' out' hcall _ ih =>
    rw [hcall] at ih
    obtain rfl : c' = c := ih.chain_of_call
    rw [ih.eq_giveBack_of_call rfl] at ih
    exact .receive h ih
  | case7 depth s _ c out method values destination h _ e w hcall _ ih =>
    rw [hcall] at ih
    obtain ⟨c', out'⟩ := w
    obtain rfl : c' = c := ih.chain_of_call
    exact .failCall h ih
  | case8 depth s _ c out statements h _ _ ih => exact .branch h ih
  | case9 => exact .nil
  | case10 depth s rest _ w w' hfirst _ ih₁ ih₂ =>
    rw [hfirst] at ih₁
    exact .cons ih₁ ih₂
  | case11 depth s rest _ w r w' hr hfirst _ ih =>
    rw [hfirst] at ih
    exact .stop ih hr
  | case12 depth method values _ c out hlt r w hbody _ ih =>
    rw [hbody] at ih
    exact .call hlt ih
  | case13 depth method values _ c out hge => exact .tooDeep (Nat.le_of_not_lt hge)

end

/-! ### Fuel above the limit -/

/-- Where one step and another run out of fuel, one of them does. -/
theorem Exec.bind_eq_exhausted {σ α β : Type} {x : Exec σ α} {f : α → Exec σ β} {m : Machine σ}
    (h : (x >>= f) m = .exhausted) :
    x m = .exhausted ∨ ∃ a m₁, x m = .done a m₁ ∧ f a m₁ = .exhausted := by
  cases hx : x m with
  | done a m₁ => exact .inr ⟨a, m₁, rfl, (bind_done hx).symm.trans h⟩
  | failed e m₁ =>
    rw [bind_failed hx] at h
    cases h
  | exhausted => exact .inl rfl

/-- Changing an outcome does not use up fuel. -/
theorem Outcome.map_eq_exhausted {σ α β : Type} {f : α → β} {g : Machine σ → Machine σ}
    {o : Outcome σ α} (h : o.map f g = .exhausted) : o = .exhausted := by
  cases o with
  | exhausted => rfl
  | _ => cases h

namespace Eval

variable {σ : Type} [Sink σ] {p : Program} {limit : Nat}

/-- With so many calls active, a call of a method without loops does not run out of
fuel. -/
def InvokeStops (depth : Nat) (invoke : Invoke σ) : Prop :=
  ∀ ⦃method values m⦄, m.depth = depth → (Task.call method values).LoopFree →
    invoke method values m ≠ .exhausted

mutual

/-- A statement without loops does not run out of fuel, unless a call does. -/
theorem runStatement_stops (hp : p.LoopFree) {invoke : Invoke σ}
    (hsound : InvokeSound p limit invoke) {depth : Nat} (hstops : InvokeStops depth invoke)
    (fuel : Nat) {ref : ScopeRef} {c : Chain} {m : Machine σ} (hshows : m.scopes.Shows ref c)
    (hdepth : m.depth = depth) (s : Statement) (hs : s.LoopFree) :
    runStatement p invoke fuel ref s m ≠ .exhausted := by
  have hperforms : Performs p invoke fuel ref m (runStatement p invoke fuel ref s m)
    (c.action p s) := runStatement_performs hshows s
  intro hx
  rw [hx] at hperforms
  match haction : c.action p s with
  | .error e =>
    rw [haction] at hperforms
    cases hperforms
  | .ok (.write line) =>
    rw [haction] at hperforms
    rcases Exec.bind_eq_exhausted hperforms.symm with hwrite | ⟨_, m₁, -, hpure⟩
    · rw [Exec.writeLine] at hwrite
      split at hwrite <;> cases hwrite
    · cases hpure
  | .ok (.update c') =>
    rw [haction] at hperforms
    obtain ⟨st, hdone, -⟩ := hperforms
    cases hdone
  | .ok (.giveBack value) =>
    rw [haction] at hperforms
    cases hperforms
  | .ok (.call method values destination) =>
    rw [haction] at hperforms
    rcases Exec.bind_eq_exhausted hperforms.symm with hcall | ⟨value, ⟨st, _, out⟩, hcall, hrest⟩
    · exact hstops hdepth (loopFree_of_action hp hs haction rfl) hcall
    -- the call has come back, and receiving its value needs no fuel
    · obtain ⟨-, rfl, -⟩ := hsound (r := .ok value) hcall
      obtain ⟨st', hreceive, -⟩ := receive_done hshows value destination _ out
      rw [Exec.bind_done hreceive] at hrest
      cases hrest
  | .ok (.run statements) =>
    rw [haction] at hperforms
    have hlt := Chain.sizeOf_nested haction
    exact runStatements_stops hp hsound hstops fuel hshows hdepth statements
      (loopFree_of_action hp hs haction rfl) hperforms.symm
  | .ok (.loop test body) => exact loopFree_of_action hp hs haction rfl
termination_by sizeOf s

/-- **Statements without loops do not run out of fuel**, if calls do not. -/
theorem runStatements_stops (hp : p.LoopFree) {invoke : Invoke σ}
    (hsound : InvokeSound p limit invoke) {depth : Nat} (hstops : InvokeStops depth invoke)
    (fuel : Nat) {ref : ScopeRef} {c : Chain} {m : Machine σ} (hshows : m.scopes.Shows ref c)
    (hdepth : m.depth = depth) (statements : List Statement)
    (hfree : ∀ s ∈ statements, s.LoopFree) :
    runStatements p invoke fuel ref statements m ≠ .exhausted := by
  match statements with
  | [] =>
    rw [runStatements]
    nofun
  | s :: rest =>
    rw [runStatements_cons]
    intro hx
    rcases Exec.bind_eq_exhausted hx with hfirst | ⟨flow, m₁, hfirst, hrest⟩
    · exact runStatement_stops hp hsound hstops fuel hshows hdepth s (hfree s List.mem_cons_self)
        hfirst
    · cases flow with
      | giveBack value => cases hrest
      | next =>
        -- the first statement has left as many calls active as there were
        obtain ⟨c₁, -, hshows₁, -, hdepth₁⟩ :=
          runStatement_sound hsound fuel ref s (r := .ok .next) hshows hfirst
        exact runStatements_stops hp hsound hstops fuel hshows₁ (hdepth₁.trans hdepth) rest
          (fun t ht => hfree t (List.mem_cons_of_mem s ht)) hrest
termination_by sizeOf statements

end

/-- **A call takes no more fuel than there are calls left.** -/
theorem runMethod_stops (hp : p.LoopFree) {depth fuel : Nat} (hfuel : limit - depth < fuel) :
    InvokeStops (σ := σ) depth (runMethod p limit fuel) := by
  induction fuel generalizing depth with
  | zero => exact absurd hfuel (Nat.not_lt_zero _)
  | succ fuel ih =>
    rintro method values m rfl hfree hx
    rcases Nat.lt_or_ge m.depth limit with hlt | hge
    · rw [runMethod_succ fuel method values hlt] at hx
      have hless : limit - (m.depth + 1) < fuel := by omega
      exact runStatements_stops hp (runMethod_sound fuel) (ih hless) fuel
        (shows_callee method values m) rfl method.body hfree (Outcome.map_eq_exhausted hx)
    · rw [runMethod_succ_of_le fuel method values hge] at hx
      cases hx

end Eval

/-! ### Whole runs -/

namespace Interpreter

variable {σ τ : Type} [Sink σ] [Sink τ] {job : Job}

/-- Runs a program without loops, however long it takes. -/
def runToEnd (job : Job) (hfree : job.program.LoopFree) (i : Interpreter σ τ) :
    Except RuntimeError Unit × Interpreter σ τ :=
  let (r, w) := finish hfree job.limit i.machine.depth (.body job.program.main.body) hfree.main
    ⟨.root ∅, i.machine.out⟩
  conclude r.error? { i.machine with out := w.out } i.diag

/-- The entry method of a program without loops does not run out of fuel, if there is
more of it than there may be calls. -/
theorem runEntry_stops (hfree : job.program.LoopFree) {fuel : Nat} (hfuel : job.limit < fuel)
    (m : Machine σ) : runEntry job fuel m ≠ .exhausted := by
  intro hx
  rw [runEntry, Exec.withScope_eq] at hx
  have hless : job.limit - m.depth < fuel := (Nat.sub_le ..).trans_lt hfuel
  have hshows : ({ m with scopes := m.scopes.push none } : Machine σ).scopes.Shows m.scopes.next
    (.root ∅) := ScopeStack.shows_push_none m.scopes
  exact runStatements_stops hfree (runMethod_sound fuel) (runMethod_stops hfree hless) fuel hshows
    rfl job.program.main.body hfree.main (Outcome.map_eq_exhausted hx)

end Interpreter

/-- **Programs without loops always stop.**  For whatever program without loops,
whatever calls its methods make of each other, whatever the limit of calls, the
state of the interpreter and the sinks: the run is the one that well-founded
recursion gives.  Every run with more fuel than the limit is this run, and no fuel
gives another. -/
theorem loop_free_programs_stop {σ τ : Type} [Sink σ] [Sink τ] (job : Job)
    (hfree : job.program.LoopFree) (i : Interpreter σ τ) :
    (∀ fuel, job.limit < fuel → i.run job fuel = some (i.runToEnd job hfree)) ∧
      ∀ fuel x, i.run job fuel = some x → x = i.runToEnd job hfree := by
  have hruns := finish_runs hfree job.limit i.machine.depth (.body job.program.main.body) hfree.main
    ⟨.root ∅, i.machine.out⟩
  obtain ⟨fuel₀, hentry₀⟩ := Interpreter.runEntry_finished_iff.2 ⟨_, _, hruns, rfl⟩
  have hrun₀ : i.run job fuel₀ = some (i.runToEnd job hfree) :=
    Interpreter.run_eq_some_iff.2 ⟨_, _, hentry₀, rfl⟩
  have hunique : ∀ fuel x, i.run job fuel = some x → x = i.runToEnd job hfree :=
    fun fuel x h => Interpreter.run_unique h hrun₀
  refine ⟨fun fuel hfuel => ?_, hunique⟩
  obtain ⟨r, m, hentry⟩ :=
    (Outcome.eq_exhausted_or _).resolve_left (Interpreter.runEntry_stops hfree hfuel i.machine)
  have hrun := Interpreter.run_eq_some_iff.2 ⟨r, m, hentry, rfl⟩
  rw [hrun, hunique fuel _ hrun]

/-- Two methods that call each other. -/
def Job.echoes : Job where
  program :=
    { main := .main [.expression .call [.var "to"]]
      methods := [
        { name := "to", params := [], body := [.expression .print [.str "to"],
            .block .conditional [.int 1] [.block .trueBranch [] [.expression .call [.var "fro"]]]] },
        { name := "fro", params := [], body := [.expression .callInto [.var "x", .var "to"]] }] }
  limit := 3

/-- They call each other until the limit is reached. -/
theorem echoes_stop :
    ∃ hfree : Job.echoes.program.LoopFree,
      ((Interpreter.fresh Buffer.unbounded Buffer.unbounded).runToEnd .echoes hfree).1 =
        .error (.callDepthExceeded 3) := by
  have hfree : Job.echoes.program.LoopFree := by decide
  refine ⟨hfree, ?_⟩
  have hrun : (Interpreter.run .echoes 4 (Interpreter.fresh Buffer.unbounded Buffer.unbounded)).map
    Prod.fst = some (.error (.callDepthExceeded 3)) := rfl
  rw [(loop_free_programs_stop .echoes hfree _).1 4 (by decide)] at hrun
  exact Option.some.inj hrun

end Showtime
