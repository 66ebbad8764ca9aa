/-
# What an assignment computes

An assignment folds its operators from left to right, starting with its first
operand, and writes the result to its target.  The operators work on the integers
of the operands as numbers, and the result of each is brought back into the range
from `-2 ^ 63` to `2 ^ 63 - 1`, modulo `2 ^ 64`.

| operator | what it makes of `a` and `b` |
| --- | --- |
| `add`, `subtract`, `multiply` | `a + b`, `a - b`, `a * b` |
| `divide` | `a / b`, toward zero |
| `equalTo`, `greaterThan` | 1 if `a = b`, if `a > b`, otherwise 0 |
| `or`, `and` | 1 if one is not 0, if both are not 0, otherwise 0 |

What can go wrong is an operand without an integer, a divisor that is zero and a
target that is not in sight.  Of several faults the leftmost counts
(`leftmostFault?`), the target coming last.

Sums, differences and products respect the range: to bring the last result into it
is enough (`leftFold_eq_wrap_exactFold`).
-/

import Showtime.Proofs.Run.Fuel
import Showtime.Proofs.Scope.Nearest

namespace Showtime

open Eval

/-! ### Numbers -/

/-- The number from `-2 ^ 63` to `2 ^ 63 - 1` that this one is equal to modulo `2 ^ 64`. -/
def Integer.wrap (n : Int) : Int := n.bmod (2 ^ 64)

/-- A machine integer is in the range already. -/
theorem Integer.wrap_toInt (n : Int64) : wrap n.toInt = n.toInt := n.toInt_bmod

namespace Op

/-- What a fold operator makes of two numbers, whether it is in range or not. -/
def exact : Op → Int → Int → Int
  | add, a, b => a + b
  | subtract, a, b => a - b
  | multiply, a, b => a * b
  | divide, a, b => a.tdiv b
  | equalTo, a, b => if a = b then 1 else 0
  | greaterThan, a, b => if a > b then 1 else 0
  | or, a, b => if a ≠ 0 ∨ b ≠ 0 then 1 else 0
  | and, a, b => if a ≠ 0 ∧ b ≠ 0 then 1 else 0
  | _, a, _ => a

/-- Is a sum, a difference or a product. -/
def isPolynomial : Op → Bool
  | add | subtract | multiply => true
  | _ => false

/-- A number may be brought into range before a sum, a difference or a product. -/
theorem wrap_exact_wrap {op : Op} (h : op.isPolynomial) (a b : Int) :
    Integer.wrap (op.exact (Integer.wrap a) b) = Integer.wrap (op.exact a b) := by
  cases op with
  | add => exact Int.bmod_add_bmod
  | subtract => exact Int.bmod_sub_bmod
  | multiply => exact Int.bmod_mul_bmod
  | _ => cases h

end Op

/-- The number of a fold, each result being brought into range. -/
def leftFold (seed : Int) (steps : List (Op × Int)) : Int :=
  steps.foldl (fun acc step => Integer.wrap (step.1.exact acc step.2)) seed

/-- The number of a fold, whatever its range. -/
def exactFold (seed : Int) (steps : List (Op × Int)) : Int :=
  steps.foldl (fun acc step => step.1.exact acc step.2) seed

/-- **Bringing each result into range is bringing the last one into range**, if there
are sums, differences and products only. -/
theorem leftFold_eq_wrap_exactFold {steps : List (Op × Int)}
    (h : ∀ step ∈ steps, step.1.isPolynomial) (seed : Int) :
    leftFold (Integer.wrap seed) steps = Integer.wrap (exactFold seed steps) := by
  induction steps generalizing seed with
  | nil => rfl
  | cons step rest ih =>
    obtain ⟨hstep, hrest⟩ := List.forall_mem_cons.1 h
    calc leftFold (Integer.wrap seed) (step :: rest)
      _ = leftFold (Integer.wrap (step.1.exact (Integer.wrap seed) step.2)) rest := rfl
      _ = leftFold (Integer.wrap (step.1.exact seed step.2)) rest := by
        rw [Op.wrap_exact_wrap hstep]
      _ = Integer.wrap (exactFold seed (step :: rest)) := ih hrest _

/-! ### Operators -/

/-- A comparison gives 1 or 0, which needs no wrapping. -/
theorem Integer.toInt_ofBool {b : Bool} {P : Prop} [Decidable P] (h : b = true ↔ P) :
    (ofBool b).toInt = wrap (if P then 1 else 0) := by
  by_cases hP : P
  · rw [if_pos hP, h.2 hP]
    rfl
  · have hb : b = false := by simpa [hP] using h
    rw [if_neg hP, hb]
    rfl

/-- **An operator gives its number, brought into range**, unless it divides by zero. -/
theorem Eval.apply_eq_ok {op : Op} (hop : op.isFold) (acc rhs : Int64)
    (hdivisor : ¬ (op = .divide ∧ rhs = 0)) :
    ∃ n, apply op acc rhs = .ok n ∧ n.toInt = Integer.wrap (op.exact acc.toInt rhs.toInt) := by
  have hzero (n : Int64) : n ≠ 0 ↔ n.toInt ≠ 0 := by
    rw [Ne, ← Int64.toInt_inj, Int64.toInt_zero]
  cases op with
  | add => exact ⟨_, rfl, Int64.toInt_add acc rhs⟩
  | subtract => exact ⟨_, rfl, Int64.toInt_sub acc rhs⟩
  | multiply => exact ⟨_, rfl, Int64.toInt_mul acc rhs⟩
  | divide =>
    have hrhs : rhs ≠ 0 := fun h => hdivisor ⟨rfl, h⟩
    exact ⟨_, if_neg hrhs, Int64.toInt_div acc rhs⟩
  | equalTo => exact ⟨_, rfl, Integer.toInt_ofBool (by rw [beq_iff_eq, Int64.toInt_inj])⟩
  | greaterThan =>
    refine ⟨_, rfl, Integer.toInt_ofBool ?_⟩
    rw [decide_eq_true_iff, Int64.lt_iff_toInt_lt, gt_iff_lt]
  | or => exact ⟨_, rfl, Integer.toInt_ofBool (by simp [hzero])⟩
  | and => exact ⟨_, rfl, Integer.toInt_ofBool (by simp [hzero])⟩
  | _ => cases hop

/-- The one quotient that is out of range. -/
example : apply .divide Int64.minValue (-1) = .ok Int64.minValue := by decide

/-! ### Folds -/

/-- A fold operator with its operands, of which the first counts. -/
structure FoldStep where
  op : Op
  args : List Value
  isFold : op.isFold

/-- The statement that is the step. -/
def FoldStep.statement (step : FoldStep) : Statement := .expression step.op step.args

/-- An assignment that folds these steps. -/
def Statement.assignmentOf (name : String) (more first : List Value) (steps : List FoldStep) :
    Statement :=
  .block .assignment (.var name :: more)
    (.expression .firstOperand first :: steps.map FoldStep.statement)

namespace ScopeStack

variable (st : ScopeStack) (ref : ScopeRef)

/-- The integer of the operand of an instruction, seen from a scope. -/
def operandValue (op : Op) : List Value → Except RuntimeError Int64
  | [] => .error (.missingOperand op.text)
  | v :: _ => st.get ref v

/-- What is wrong with an instruction of a fold: its operand has no integer, or it
divides by zero. -/
def fault? (op : Op) (args : List Value) : Option RuntimeError :=
  match st.operandValue ref op args with
  | .error e => some e
  | .ok n => if op = .divide ∧ n = 0 then some .divisionByZero else none

/-- A step fails for its operand, or for a division by zero. -/
theorem fault?_eq_some_iff {op : Op} {args : List Value} {e : RuntimeError} :
    st.fault? ref op args = some e ↔ st.operandValue ref op args = .error e ∨
      op = .divide ∧ st.operandValue ref op args = .ok 0 ∧ e = .divisionByZero := by
  rw [fault?]
  cases st.operandValue ref op args with
  | error e' => simp
  | ok n => simp [and_assoc, eq_comm]

/-- A step does not fail if its operand has a value that it can use. -/
theorem fault?_eq_none_iff {op : Op} {args : List Value} :
    st.fault? ref op args = none ↔
      ∃ n, st.operandValue ref op args = .ok n ∧ ¬ (op = .divide ∧ n = 0) := by
  rw [fault?]
  cases st.operandValue ref op args with
  | error e => simp
  | ok n => simp

/-- The first thing that is wrong with a fold, from left to right. -/
def leftmostFault? (first : List Value) (steps : List FoldStep) : Option RuntimeError :=
  (st.fault? ref .firstOperand first).or
    (steps.findSome? fun step => st.fault? ref step.op step.args)

/-- The steps of a fold have operands with these integers. -/
def Operands (steps : List FoldStep) (operands : List Int64) : Prop :=
  List.Forall₂ (fun step n => st.operandValue ref step.op step.args = .ok n) steps operands

end ScopeStack

/-- The operators of a fold with the numbers of their operands. -/
def FoldStep.numbers (steps : List FoldStep) (operands : List Int64) : List (Op × Int) :=
  steps.zipWith (fun step n => (step.op, n.toInt)) operands

namespace Eval

variable {st : ScopeStack} {ref : ScopeRef}

/-- The first argument is looked up as the operand. -/
theorem operand_bind_get (op : Op) (args : List Value) :
    (operand op.text args 0 >>= st.get ref) = st.operandValue ref op args := by
  cases args <;> rfl

/-- A step looks up its operand before it computes. -/
theorem foldFrom_statement (step : FoldStep) (acc : Int64) (rest : List Statement) :
    foldFrom st ref acc (step.statement :: rest) = (do
      let rhs ← st.operandValue ref step.op step.args
      foldFrom st ref (← apply step.op acc rhs) rest) := by
  rw [FoldStep.statement, foldFrom, if_pos step.isFold, ← operand_bind_get]
  cases operand step.op.text step.args 0 <;> rfl

/-- A step that has a fault ends the fold with it. -/
theorem foldFrom_of_fault {step : FoldStep} {e : RuntimeError}
    (h : st.fault? ref step.op step.args = some e) (acc : Int64) (rest : List Statement) :
    foldFrom st ref acc (step.statement :: rest) = .error e := by
  rw [foldFrom_statement]
  rcases (st.fault?_eq_some_iff ref).1 h with hvalue | ⟨hop, hvalue, rfl⟩
  · rw [hvalue]
    rfl
  · rw [hvalue, hop]
    rfl

/-- A step without a fault goes on with its number, brought into range. -/
theorem foldFrom_of_no_fault {step : FoldStep} (h : st.fault? ref step.op step.args = none)
    (acc : Int64) (rest : List Statement) :
    ∃ n next, st.operandValue ref step.op step.args = .ok n ∧
      next.toInt = Integer.wrap (step.op.exact acc.toInt n.toInt) ∧
        foldFrom st ref acc (step.statement :: rest) = foldFrom st ref next rest := by
  obtain ⟨n, hvalue, hzero⟩ := (st.fault?_eq_none_iff ref).1 h
  obtain ⟨next, happly, hnext⟩ := apply_eq_ok step.isFold acc n hzero
  refine ⟨n, next, hvalue, hnext, ?_⟩
  rw [foldFrom_statement, hvalue]
  simp only [bind, Except.bind, happly]

/-- The leftmost fault of a row of steps ends the fold, whatever it has come to. -/
theorem foldFrom_error {steps : List FoldStep} {e : RuntimeError}
    (h : steps.findSome? (fun step => st.fault? ref step.op step.args) = some e) (acc : Int64) :
    foldFrom st ref acc (steps.map FoldStep.statement) = .error e := by
  induction steps generalizing acc with
  | nil => cases h
  | cons step rest ih =>
    rw [List.map_cons]
    rw [List.findSome?_cons] at h
    cases hfault : st.fault? ref step.op step.args with
    | some e' =>
      rw [hfault] at h
      obtain rfl := Option.some.inj h
      exact foldFrom_of_fault hfault acc _
    | none =>
      rw [hfault] at h
      obtain ⟨n, next, -, -, hfold⟩ := foldFrom_of_no_fault hfault acc (rest.map FoldStep.statement)
      rw [hfold, ih h]

/-- **A row of steps without a fault gives the number of their fold.** -/
theorem foldFrom_ok {steps : List FoldStep}
    (h : steps.findSome? (fun step => st.fault? ref step.op step.args) = none) (acc : Int64) :
    ∃ operands value, st.Operands ref steps operands ∧
      foldFrom st ref acc (steps.map FoldStep.statement) = .ok value ∧
        value.toInt = leftFold acc.toInt (FoldStep.numbers steps operands) := by
  induction steps generalizing acc with
  | nil => exact ⟨[], acc, .nil, rfl, rfl⟩
  | cons step rest ih =>
    obtain ⟨hfault, hrest⟩ := List.forall_mem_cons.1 (List.findSome?_eq_none_iff.1 h)
    obtain ⟨n, next, hn, hnext, hfold⟩ :=
      foldFrom_of_no_fault hfault acc (rest.map FoldStep.statement)
    obtain ⟨operands, value, hoperands, hvalue, hnumber⟩ :=
      ih (List.findSome?_eq_none_iff.2 hrest) next
    refine ⟨n :: operands, value, .cons hn hoperands, hfold.trans hvalue, ?_⟩
    rw [hnumber, hnext]
    rfl

/-- The first operand is where the fold starts. -/
theorem fold_firstOperand (first : List Value) (steps : List Statement) :
    fold st ref (.expression .firstOperand first :: steps) = (do
      foldFrom st ref (← st.operandValue ref .firstOperand first) steps) := by
  rw [fold, ← operand_bind_get]
  cases operand Op.firstOperand.text first 0 <;> rfl

/-- **A fold fails with its leftmost fault.** -/
theorem fold_error {first : List Value} {steps : List FoldStep} {e : RuntimeError}
    (h : st.leftmostFault? ref first steps = some e) :
    fold st ref (.expression .firstOperand first :: steps.map FoldStep.statement) = .error e := by
  rw [fold_firstOperand]
  rcases Option.or_eq_some_iff.1 h with hfirst | ⟨hfirst, hsteps⟩
  · rcases (st.fault?_eq_some_iff ref).1 hfirst with hvalue | ⟨hop, -⟩
    · rw [hvalue]
      rfl
    · cases hop
  · obtain ⟨seed, hvalue, -⟩ := (st.fault?_eq_none_iff ref).1 hfirst
    rw [hvalue]
    exact foldFrom_error hsteps seed

/-- **A fold without a fault gives its number**, each result being brought into range. -/
theorem fold_ok {first : List Value} {steps : List FoldStep}
    (h : st.leftmostFault? ref first steps = none) :
    ∃ seed operands value, st.operandValue ref .firstOperand first = .ok seed ∧
      st.Operands ref steps operands ∧
      fold st ref (.expression .firstOperand first :: steps.map FoldStep.statement) = .ok value ∧
        value.toInt = leftFold seed.toInt (FoldStep.numbers steps operands) := by
  obtain ⟨hfirst, hsteps⟩ := Option.or_eq_none_iff.1 h
  obtain ⟨seed, hvalue, -⟩ := (st.fault?_eq_none_iff ref).1 hfirst
  obtain ⟨operands, value, hoperands, hfold, hnumber⟩ := foldFrom_ok hsteps seed
  refine ⟨seed, operands, value, hvalue, hoperands, ?_, hnumber⟩
  rw [fold_firstOperand, hvalue]
  exact hfold

/-! ### Assignments -/

/-- A fold depends only on the values that operands have. -/
theorem foldFrom_congr {st' : ScopeStack} {ref' : ScopeRef} (h : st'.get ref' = st.get ref)
    (acc : Int64) (steps : List Statement) :
    foldFrom st' ref' acc steps = foldFrom st ref acc steps := by
  induction steps generalizing acc with
  | nil => rfl
  | cons s rest ih =>
    cases s with
    | expression op args => simp only [foldFrom, h, ih]
    | block kind args body => rfl

/-- A fold reads its operands and nothing else. -/
theorem fold_congr {st' : ScopeStack} {ref' : ScopeRef} (h : st'.get ref' = st.get ref)
    (body : List Statement) : fold st' ref' body = fold st ref body := by
  unfold fold
  split
  · simp only [h, foldFrom_congr h]
  · rfl

/-- An assignment computes its fold as seen from its own scope, and then writes. -/
theorem runAssignment_eq {σ : Type} (name : String) (more : List Value) (body : List Statement)
    (ref : ScopeRef) (m : Machine σ) :
    runAssignment (.var name :: more) body ref m =
      (Exec.lift (fold m.scopes ref body) >>= fun value =>
        Exec.set ref name value >>= fun _ => pure Flow.next) m := by
  have hfold : Exec.withScope (some ref)
      (fun child m => Exec.lift (fold m.scopes child body) m) m =
        Exec.lift (fold m.scopes ref body) m := by
    obtain ⟨st, depth, out⟩ := m
    simp only [Exec.withScope, fold_congr (ScopeStack.get_push_child st ref)]
    cases fold st ref body <;> simp [Exec.lift, Exec.pop, ScopeStack.pop_push]
  rw [runAssignment]
  refine (Exec.bind_done (a := name) rfl).trans ?_
  cases hvalue : fold m.scopes ref body with
  | error e =>
    rw [hvalue] at hfold
    rw [Exec.bind_failed hfold]
    rfl
  | ok value =>
    rw [hvalue] at hfold
    rw [Exec.bind_done hfold]
    rfl

end Eval

/-- **An assignment computes the left fold and writes one binding.**  Take any stack, any
scope and any assignment to a variable that consists of a first operand and fold
operators.

* If an instruction has a fault, it fails with the fault of the leftmost.
* If there is none, but the target is not in sight, it fails for that.
* Otherwise it falls through.  All operands have integers, as seen from the scope
  before, and the nearest binding of the target, but nothing else, has another value:
  the number of the fold, brought into range after each operator.  If there are sums,
  differences and products only, this is the exact number brought into range once. -/
theorem assignment_writes_left_fold {σ : Type} [Sink σ] (p : Program) (invoke : Invoke σ)
    (fuel : Nat) (m : Machine σ) (ref : ScopeRef) (name : String) (more first : List Value)
    (steps : List FoldStep) :
    let outcome := runStatement p invoke fuel ref (.assignmentOf name more first steps) m
    let fault? := m.scopes.leftmostFault? ref first steps
    (∀ e, fault? = some e → outcome = .failed e m) ∧
    (fault? = none → m.scopes.lookup ref name = none →
      outcome = .failed (.undefinedVariable name) m) ∧
    (fault? = none → (m.scopes.lookup ref name).isSome → ∃ seed operands owner value st,
      m.scopes.operandValue ref .firstOperand first = .ok seed ∧
      m.scopes.Operands ref steps operands ∧
      outcome = .done .next { m with scopes := st } ∧
      m.scopes.Nearest name ref owner ∧ ScopeStack.Rebinds owner name value m.scopes st ∧
      value.toInt = leftFold seed.toInt (FoldStep.numbers steps operands) ∧
      ((∀ step ∈ steps, step.op.isPolynomial) →
        value.toInt = Integer.wrap (exactFold seed.toInt (FoldStep.numbers steps operands)))) := by
  intro outcome fault?
  have houtcome : outcome = (Exec.lift (fold m.scopes ref
      (.expression .firstOperand first :: steps.map FoldStep.statement)) >>= fun value =>
        Exec.set ref name value >>= fun _ => pure Flow.next) m := by
    rw [← runAssignment_eq name more]
    simp only [outcome, Statement.assignmentOf, runStatement]
  rw [houtcome]
  have hsight := m.scopes.lookup_isSome ref name
  refine ⟨fun e hfault => ?_, fun hfault hnone => ?_, fun hfault hsome => ?_⟩
  · rw [fold_error hfault]
    rfl
  · obtain ⟨seed, operands, value, -, -, hfold, -⟩ := fold_ok hfault
    have howner : m.scopes.owner ref name = none := by
      rw [hnone] at hsight
      simpa using hsight.symm
    rw [hfold]
    refine (Exec.bind_done (a := value) rfl).trans (Exec.bind_failed ?_)
    rw [Exec.set, ScopeStack.set, howner]
  · obtain ⟨seed, operands, value, hseed, hoperands, hfold, hnumber⟩ := fold_ok hfault
    obtain ⟨owner, howner⟩ : ∃ owner, m.scopes.owner ref name = some owner := by
      rw [hsome] at hsight
      exact Option.isSome_iff_exists.1 hsight.symm
    obtain ⟨st, hset, hrebinds⟩ := ScopeStack.set_of_owner howner value
    refine ⟨seed, operands, owner, value, st, hseed, hoperands, ?_,
      ScopeStack.nearest_of_owner howner, hrebinds, hnumber, fun hpolynomial => ?_⟩
    · rw [hfold]
      refine (Exec.bind_done (a := value) rfl).trans (Exec.bind_done (a := ()) ?_)
      rw [Exec.set, hset]
    · have hsteps : ∀ step ∈ FoldStep.numbers steps operands, step.1.isPolynomial := by
        intro step hstep
        obtain ⟨i, hi, rfl⟩ := List.mem_iff_getElem.1 hstep
        simp only [FoldStep.numbers, List.getElem_zipWith]
        exact hpolynomial _ (List.getElem_mem _)
      rw [hnumber, ← leftFold_eq_wrap_exactFold hsteps, Integer.wrap_toInt]

end Showtime
