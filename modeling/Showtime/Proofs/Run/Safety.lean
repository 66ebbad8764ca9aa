/-
# What a program from a source can fail with

Six kinds of errors are ordinary: a program of the grammar can meet them, and
must, since they depend on what is declared, computed, called and written.  The
other six answer to statements and operands that the grammar does not have.

A statement of the grammar fails in an ordinary way when it is read
(`action_safe`), and what runs as a part of it is of the grammar again
(`derived_of_action`).  By induction over a run, nothing else ever happens
(`ordinary_of_runs`).
-/

import Showtime.Proofs.Parser.Acceptance
import Showtime.Proofs.Run.Refinement

namespace Showtime

/-- The errors of programs that are put together well. -/
inductive RuntimeError.Ordinary : RuntimeError → Prop
  | undefinedVariable (name : String) : Ordinary (.undefinedVariable name)
  | divisionByZero : Ordinary .divisionByZero
  | unknownMethod (name : String) : Ordinary (.unknownMethod name)
  | arityMismatch (name : String) (expected got : Nat) : Ordinary (.arityMismatch name expected got)
  | callDepthExceeded (limit : Nat) : Ordinary (.callDepthExceeded limit)
  | io (message : String) : Ordinary (.io message)

/-- A computation fails in an ordinary way, if it fails. -/
def Safe {α : Type} (x : Except RuntimeError α) : Prop :=
  ∀ e, x = .error e → e.Ordinary

/-- A value is no failure. -/
theorem safe_ok {α : Type} (a : α) : Safe (.ok a) :=
  fun _ h => nomatch h

/-- An ordinary error is an ordinary failure. -/
theorem safe_error {α : Type} {e : RuntimeError} (he : e.Ordinary) :
    Safe (.error e : Except RuntimeError α) := by
  intro e' h
  obtain rfl := Except.error.inj h
  exact he

/-- A sequence fails in an ordinary way if each part does, as far as it comes. -/
theorem Safe.bind {α β : Type} {x : Except RuntimeError α} {f : α → Except RuntimeError β}
    (hx : Safe x) (hf : ∀ a, x = .ok a → Safe (f a)) : Safe (x >>= f) := by
  cases x with
  | error e => exact safe_error (hx e rfl)
  | ok a => exact hf a rfl

namespace Chain

variable {c : Chain} {p : Program} {ts : List Token}

/-! ### Operands and folds -/

/-- An operand of the grammar has a value, or is a variable that is not in sight. -/
theorem get_safe {v : Value} (h : Grammar.Operand ts v) : Safe (c.get v) := by
  cases h with
  | int n => exact safe_ok n
  | truth b => exact safe_ok _
  | var name =>
    rw [get]
    cases c.lookup name with
    | some n => exact safe_ok n
    | none => exact safe_error (.undefinedVariable name)

/-- Arguments of the grammar fail in an ordinary way. -/
theorem mapM_get_safe {vs : List Value} (h : Grammar.Star Grammar.Operand ts vs) :
    Safe (vs.mapM c.get) := by
  induction h with
  | nil => exact safe_ok []
  | cons head _ ih =>
    rw [List.mapM_cons]
    exact (get_safe head).bind fun n _ => ih.bind fun ns _ => safe_ok _

/-- A step of a fold can only divide by zero or miss a variable. -/
theorem foldStep_safe {s : Statement} (h : Grammar.Fold ts s) (acc : Int64) :
    Safe (c.foldStep acc s) := by
  obtain @⟨_, _, op, v, hop, hoperand⟩ := h
  have hfold : op.isFold = true := by cases hop <;> rfl
  have happly (rhs : Int64) : Safe (Eval.apply op acc rhs) := by
    cases hop with
    | divide =>
      rw [Eval.apply]
      split
      · exact safe_error .divisionByZero
      · exact safe_ok _
    | _ => exact safe_ok _
  rw [foldStep, if_pos hfold]
  exact (get_safe hoperand).bind fun rhs _ => happly rhs

/-- An assignment of the grammar is computed, or fails in an ordinary way. -/
theorem fold_safe {us : List Token} {seed : Value} {folds : List Statement}
    (hseed : Grammar.Operand ts seed) (hfolds : Grammar.Star Grammar.Fold us folds) :
    Safe (c.fold (.expression .firstOperand [seed] :: folds)) := by
  have hsteps (acc : Int64) : Safe (folds.foldlM c.foldStep acc) := by
    induction hfolds generalizing acc with
    | nil => exact safe_ok acc
    | cons head _ ih =>
      rw [List.foldlM_cons]
      exact (foldStep_safe head acc).bind fun n _ => ih n
  exact (get_safe hseed).bind fun n _ => hsteps n

/-! ### Statements -/

/-- A call of the grammar fails in an ordinary way. -/
theorem invocation_safe {args : List Value} (h : Grammar.Star Grammar.Operand ts args)
    (name : String) (destination : Option String) :
    Safe (c.invocation p name args destination) := by
  rw [invocation]
  split
  · exact safe_error (.unknownMethod name)
  · split
    · exact (mapM_get_safe h).bind fun values _ => safe_ok _
    · exact safe_error (.arityMismatch name _ _)

/-- A variable that is not in sight is an ordinary failure. -/
theorem set_safe (name : String) (value : Int64) : Safe (c.set name value) := by
  rw [set]
  split
  · exact safe_ok _
  · exact safe_error (.undefinedVariable name)

/-- **A statement of the grammar fails in an ordinary way.** -/
theorem action_safe {s : Statement} (h : Grammar.Statement ts s) : Safe (c.action p s) := by
  cases h with
  | print hvalue =>
    cases hvalue with
    | str s => exact safe_ok _
    | operand hoperand =>
      have hget : Safe (c.get _) := get_safe hoperand
      cases hoperand <;> exact hget.bind fun n _ => safe_ok _
  | declare hinit => cases hinit <;> exact safe_ok _
  | assignment hseed hfolds =>
    exact (fold_safe hseed hfolds).bind fun n _ => (set_safe _ n).bind fun c' _ => safe_ok _
  | conditional htest hthen =>
    exact (get_safe htest).bind fun n _ => safe_ok _
  | conditionalElse htest hthen helse =>
    exact (get_safe htest).bind fun n _ => safe_ok _
  | loop htest hbody => exact safe_ok _
  | call hargs => exact invocation_safe hargs _ _
  | callInto hargs => exact invocation_safe hargs _ _
  | callIntoCall hargs => exact invocation_safe hargs _ _
  | giveBack => exact safe_ok _
  | giveBackValue hvalue => exact (get_safe hvalue).bind fun n _ => safe_ok _

end Chain

/-! ### Runs -/

/-- The statement has a derivation. -/
def Statement.Derived (s : Statement) : Prop :=
  ∃ ts, Grammar.Statement ts s

/-- All that the task consists of has a derivation. -/
def Task.Derived : Task → Prop
  | .statement s => s.Derived
  | .body statements => ∀ s ∈ statements, s.Derived
  | .rounds test statements =>
    (∃ ts, Grammar.Operand ts test) ∧ ∀ s ∈ statements, s.Derived
  | .call method _ => ∀ s ∈ method.body, s.Derived

/-- The bodies of all methods have derivations. -/
def Program.Derived (p : Program) : Prop :=
  (∀ s ∈ p.main.body, s.Derived) ∧ ∀ m ∈ p.methods, ∀ s ∈ m.body, s.Derived

/-- Statements that derive from tokens have derivations, each its own. -/
theorem derived_of_star {ts : List Token} {statements : List Statement}
    (h : Grammar.Star Grammar.Statement ts statements) : ∀ s ∈ statements, s.Derived :=
  fun _ hs => h.exists_of_mem hs

/-- The statements of a program of the grammar have derivations. -/
theorem Grammar.Program.derived {ts : List Token} {p : Showtime.Program}
    (h : Grammar.Program ts p) : p.Derived := by
  obtain ⟨⟨hbody⟩, hmethods⟩ := h
  refine ⟨derived_of_star hbody, fun m hm => ?_⟩
  obtain ⟨us, ⟨-, hbody⟩⟩ := hmethods.exists_of_mem hm
  exact derived_of_star hbody

section

variable {p : Program} {c : Chain}

/-- An instruction runs nothing but the body of a method, which has a derivation. -/
theorem derived_of_instruction (hp : p.Derived) {op : Op} {args : List Value} {a : Action}
    {task : Task} (h : c.action p (.expression op args) = .ok a) (htask : a.task? = some task) :
    task.Derived := by
  rw [Chain.action] at h
  rcases Chain.task?_of_instruction h with hnone | ⟨method, values, destination, rfl, hmem⟩
  · rw [hnone] at htask
    cases htask
  · obtain rfl := Option.some.inj htask
    exact hp.2 method hmem

/-- **What runs as a part of a statement of the grammar is of the grammar.** -/
theorem derived_of_action (hp : p.Derived) {s : Statement} {a : Action} {task : Task}
    (hs : s.Derived) (h : c.action p s = .ok a) (htask : a.task? = some task) : task.Derived := by
  obtain ⟨ts, hs⟩ := hs
  cases hs with
  | assignment hseed hfolds =>
    obtain ⟨name, -, h⟩ := bind_eq_ok h
    obtain ⟨n, -, h⟩ := bind_eq_ok h
    obtain ⟨c', -, h⟩ := bind_eq_ok h
    obtain rfl := Except.ok.inj h
    cases htask
  | conditional htest hthen =>
    obtain ⟨v, -, h⟩ := bind_eq_ok h
    obtain ⟨n, -, h⟩ := bind_eq_ok h
    obtain rfl := Except.ok.inj h
    obtain rfl := Option.some.inj htask
    intro s hs
    split_ifs at hs
    · cases hs
    · exact derived_of_star hthen s hs
  | conditionalElse htest hthen helse =>
    obtain ⟨v, -, h⟩ := bind_eq_ok h
    obtain ⟨n, -, h⟩ := bind_eq_ok h
    obtain rfl := Except.ok.inj h
    obtain rfl := Option.some.inj htask
    intro s hs
    split_ifs at hs
    · exact derived_of_star helse s hs
    · exact derived_of_star hthen s hs
  | loop htest hbody =>
    obtain rfl := Except.ok.inj h
    obtain rfl := Option.some.inj htask
    exact ⟨⟨_, htest⟩, derived_of_star hbody⟩
  | _ => exact derived_of_instruction hp h htask

/-- A call fails as the body of the method does. -/
theorem Safe.ofBody {r : Ending} (h : Safe r) : Safe r.ofBody := by
  cases r with
  | ok flow => exact safe_ok _
  | error e => exact h

/-- The result of a run is safe when the entry method has ended so: the rest are
errors of the sinks. -/
theorem Interpreter.safe_result {r : Ending} (h : Safe r) (reason : Option String) :
    Safe (Interpreter.result r.error? reason) := by
  cases r with
  | error e => exact safe_error (h e rfl)
  | ok flow =>
    cases reason with
    | none => exact safe_ok ()
    | some reason => exact safe_error (.io reason)

/-- **A run of what the grammar has fails in an ordinary way.** -/
theorem ordinary_of_runs {σ : Type} [Sink σ] (hp : p.Derived) {limit depth : Nat} {task : Task}
    {w w' : World σ} {r : Ending} (h : Runs p limit depth task w r w') (htask : task.Derived) :
    Safe r := by
  -- what a task runs as a part of itself is derived as well, which feeds the hypotheses
  induction h with
  | refuse h =>
    obtain ⟨ts, hs⟩ := htask
    exact safe_error (Chain.action_safe hs _ h)
  | write h hwrite => exact safe_ok _
  | failWrite h hwrite => exact safe_error (.io _)
  | update h => exact safe_ok _
  | giveBack h => exact safe_ok _
  | receive h hcall ih => exact safe_ok _
  | failCall h hcall ih => exact ih (derived_of_action hp htask h rfl)
  | branch h hbody ih => exact ih (derived_of_action hp htask h rfl)
  | loop h hrounds ih => exact ih (derived_of_action hp htask h rfl)
  | nil => exact safe_ok _
  | cons hfirst hrest ih₁ ih₂ => exact ih₂ fun s hs => htask s (List.mem_cons_of_mem _ hs)
  | stop hfirst hr ih => exact ih (htask _ List.mem_cons_self)
  | failTest h =>
    obtain ⟨⟨ts, htest⟩, -⟩ := htask
    exact safe_error (Chain.get_safe htest _ h)
  | last h => exact safe_ok _
  | round h hn hbody hrounds ih₁ ih₂ => exact ih₂ htask
  | leave h hn hbody hr ih => exact ih htask.2
  | tooDeep h => exact safe_error (.callDepthExceeded _)
  | call h hbody ih => exact (ih htask).ofBody

end

/-- **Programs from sources fail in ordinary ways only.**  Whatever the limit,
the sinks and what the interpreter did before, a run of a parsed program ends
with one of the six kinds of errors, if it ends with an error. -/
theorem parsed_program_fails_ordinarily {σ τ : Type} [Sink σ] [Sink τ] {source : String}
    {p : Program} (hparse : Program.parse source = .ok p) {limit fuel : Nat}
    {i i' : Interpreter σ τ} {e : RuntimeError}
    (hrun : i.run { program := p, limit } fuel = some (.error e, i')) : e.Ordinary := by
  obtain ⟨ls, -, hderives, -⟩ := Program.parse_eq_ok_iff.1 hparse
  have hp : p.Derived := hderives.derived
  obtain ⟨r, m, hentry, hconclude⟩ := Interpreter.run_eq_some_iff.1 hrun
  obtain ⟨c, out, hruns, -⟩ := Interpreter.runEntry_finished_iff.1 ⟨fuel, hentry⟩
  have hr : Safe r := ordinary_of_runs hp hruns hp.1
  exact Interpreter.safe_result hr _ e (congrArg Prod.fst hconclude)

/-- A program that prints a variable that it does not have. -/
theorem missing_variable_fails_ordinarily :
    ∃ (p : Program) (i : Interpreter Buffer Buffer),
      Program.parse "IT'S SHOWTIME\nTALK TO THE HAND x\nYOU HAVE BEEN TERMINATED\n" = .ok p ∧
        (Interpreter.fresh .unbounded .unbounded).run { program := p } 1 =
          some (.error (.undefinedVariable "x"), i) ∧
        (RuntimeError.undefinedVariable "x").Ordinary := by
  have hparse : Program.parse
      "IT'S SHOWTIME\nTALK TO THE HAND x\nYOU HAVE BEEN TERMINATED\n" =
        .ok { main := .main [.expression .print [.var "x"]], methods := [] } := by decide +kernel
  obtain ⟨i, hrun⟩ : ∃ i, (Interpreter.fresh Buffer.unbounded Buffer.unbounded).run
      { program := { main := .main [.expression .print [.var "x"]], methods := [] } } 1 =
        some (.error (.undefinedVariable "x"), i) := ⟨_, rfl⟩
  exact ⟨_, i, hparse, hrun, parsed_program_fails_ordinarily hparse hrun⟩

end Showtime
