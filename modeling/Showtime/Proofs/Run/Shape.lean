/-
# What every step leaves as it was

The shape of a stack is how many scopes it has and which is whose parent; only
`push` and `pop` change it.  A step that finishes, in whatever way, has undone
every push of its own and every call that it counted (`Exec.Keeps`): this goes
for statements (`runStatements_keeps`), for calls (`runMethod_keeps`) and for
whole runs (`Interpreter.run_keeps`), whatever the program looks like, whatever
scope it runs in and whatever the sinks answer.

| step | undone by |
| --- | --- |
| the scope of a loop, of a fold, of a method | `withScope`, also after an error |
| the count of a call | `withCall`, also after an error |

Most single steps do not even change a variable (`Exec.Leaves`).
-/

import Showtime.Proofs.Run.Fuel
import Showtime.Run.Interpreter

namespace Showtime

/-! ### Shapes of stacks -/

namespace ScopeStack

/-- The parent of every scope, in the order of the stack. -/
def parents (st : ScopeStack) : List (Option ScopeRef) :=
  st.scopes.toList.map Scope.parent

/-- There is one entry for each scope. -/
@[simp]
theorem length_parents (st : ScopeStack) : st.parents.length = st.size := by
  simp [parents, size]

/-- A fresh scope comes last, with its parent. -/
@[simp]
theorem parents_push (st : ScopeStack) (parent : Option ScopeRef) :
    (st.push parent).parents = st.parents ++ [parent] := by
  simp [parents, push]

/-- What is discarded takes its parents along. -/
@[simp]
theorem parents_pop (st : ScopeStack) (ref : ScopeRef) :
    (st.pop ref).parents = st.parents.take ref.index := by
  simp [parents, pop, List.map_take]

/-- A declaration moves no scope. -/
@[simp]
theorem parents_declare (st : ScopeStack) (ref : ScopeRef) (name : String) (value : Int64) :
    (st.declare ref name value).parents = st.parents := by
  refine List.ext_getElem? fun i => ?_
  simp only [parents, declare, List.getElem?_map, Array.getElem?_toList, Array.getElem?_modify]
  split_ifs
  · cases st.scopes[i]? <;> rfl
  · rfl

/-- Only the stack without scopes has the shape of one. -/
theorem eq_empty_of_parents {st : ScopeStack} (h : st.parents = ScopeStack.empty.parents) :
    st = .empty := by
  obtain ⟨scopes⟩ := st
  have hsize : scopes.toList = [] := List.map_eq_nil_iff.1 h
  exact congrArg ScopeStack.mk (Array.toList_eq_nil_iff.1 hsize)

end ScopeStack

/-- Two states have as many scopes, with the same parents, and as many active
calls. -/
structure Machine.SameShape {σ : Type} (m m' : Machine σ) : Prop where
  size : m'.scopes.size = m.scopes.size
  parents : m'.scopes.parents = m.scopes.parents
  depth : m'.depth = m.depth

namespace Machine.SameShape

variable {σ : Type} {m m' m'' : Machine σ}

/-- Machines with the same parents and as many calls have the same shape. -/
theorem of_parents (hparents : m'.scopes.parents = m.scopes.parents) (hdepth : m'.depth = m.depth) :
    m.SameShape m' := by
  refine ⟨?_, hparents, hdepth⟩
  rw [← m'.scopes.length_parents, ← m.scopes.length_parents, hparents]

/-- A machine has its own shape. -/
theorem refl (m : Machine σ) : m.SameShape m := ⟨rfl, rfl, rfl⟩

/-- Two steps that keep the shape keep it together. -/
theorem trans (h : m.SameShape m') (h' : m'.SameShape m'') : m.SameShape m'' :=
  ⟨h'.size.trans h.size, h'.parents.trans h.parents, h'.depth.trans h.depth⟩

end Machine.SameShape

/-- Two states have the same scopes, with the same variables, and as many active
calls. -/
structure Machine.SameVariables {σ : Type} (m m' : Machine σ) : Prop where
  scopes : m'.scopes = m.scopes
  depth : m'.depth = m.depth

/-- Two steps that leave the variables leave them together. -/
theorem Machine.SameVariables.trans {σ : Type} {m m' m'' : Machine σ} (h : m.SameVariables m')
    (h' : m'.SameVariables m'') : m.SameVariables m'' :=
  ⟨h'.scopes.trans h.scopes, h'.depth.trans h.depth⟩

/-! ### Steps that leave the variables -/

namespace Exec

variable {σ α β : Type}

/-- However the step finishes, the variables are as before. -/
def Leaves (x : Exec σ α) : Prop :=
  ∀ m r m', x m = .finished r m' → m.SameVariables m'

/-- A step that changes nothing. -/
theorem leaves_of_finished {x : Exec σ α} (h : ∀ m, ∃ r, x m = .finished r m) : x.Leaves := by
  intro m r m' hx
  obtain ⟨r₁, hx₁⟩ := h m
  obtain ⟨-, rfl⟩ := Outcome.finished_inj.1 (hx₁.symm.trans hx)
  exact ⟨rfl, rfl⟩

/-- To give a value changes no variable. -/
theorem leaves_pure (a : α) : (Pure.pure a : Exec σ α).Leaves :=
  leaves_of_finished fun _ => ⟨.ok a, rfl⟩

/-- To fail changes no variable. -/
theorem leaves_fail (e : RuntimeError) : (fail e : Exec σ α).Leaves :=
  leaves_of_finished fun _ => ⟨.error e, rfl⟩

/-- A computation may look at the state. -/
theorem leaves_lift (x : Machine σ → Except RuntimeError α) : Leaves fun m => lift (x m) m := by
  refine leaves_of_finished fun m => ⟨x m, ?_⟩
  cases h : x m <;> simp only [lift, Outcome.finished]

/-- To look up an operand changes no variable. -/
theorem leaves_resolve (scope : ScopeRef) (v : Value) :
    (resolve scope v : Exec σ Int64).Leaves := by
  refine leaves_of_finished fun m => ⟨m.scopes.get scope v, ?_⟩
  rw [resolve]
  cases m.scopes.get scope v <;> rfl

/-- Writing touches the output only, whether the sink takes the line or not. -/
theorem leaves_writeLine [Sink σ] (text : String) : (writeLine text : Exec σ Unit).Leaves := by
  intro m r m' h
  rw [writeLine] at h
  rcases hwrite : Sink.write m.out (text ++ "\n").toUTF8 with ⟨failure, out⟩
  simp only [hwrite] at h
  cases failure with
  | none =>
    obtain ⟨-, rfl⟩ := Outcome.finished_inj.1 (h.symm.trans (Outcome.finished_ok _ _).symm)
    exact ⟨rfl, rfl⟩
  | some reason =>
    obtain ⟨-, rfl⟩ := Outcome.finished_inj.1 (h.symm.trans (Outcome.finished_error _ _).symm)
    exact ⟨rfl, rfl⟩

/-! ### Steps that keep the shape -/

/-- However the step finishes, the shape is as before. -/
def Keeps (x : Exec σ α) : Prop :=
  ∀ m r m', x m = .finished r m' → m.SameShape m'

/-- What changes no variable keeps the shape. -/
theorem Leaves.keeps {x : Exec σ α} (h : x.Leaves) : x.Keeps := by
  intro m r m' hx
  obtain ⟨hscopes, hdepth⟩ := h m r m' hx
  exact .of_parents (congrArg ScopeStack.parents hscopes) hdepth

/-- To give a value keeps the shape. -/
theorem keeps_pure (a : α) : (Pure.pure a : Exec σ α).Keeps := (leaves_pure a).keeps

/-- To fail keeps the shape. -/
theorem keeps_fail (e : RuntimeError) : (fail e : Exec σ α).Keeps := (leaves_fail e).keeps

/-- What is computed from a machine keeps its shape. -/
theorem keeps_lift (x : Machine σ → Except RuntimeError α) : Keeps fun m => lift (x m) m :=
  (leaves_lift x).keeps

/-- To look up an operand keeps the shape. -/
theorem keeps_resolve (scope : ScopeRef) (v : Value) : (resolve scope v : Exec σ Int64).Keeps :=
  (leaves_resolve scope v).keeps

/-- What runs out of fuel does not finish. -/
theorem keeps_exhausted : (exhausted : Exec σ α).Keeps :=
  fun _ r m' h => absurd h.symm (Outcome.finished_ne_exhausted r m')

/-- A declaration binds a name in a scope that stays where it is. -/
theorem keeps_declare (scope : ScopeRef) (name : String) (value : Int64) :
    (declare scope name value : Exec σ Unit).Keeps := by
  intro m r m' h
  obtain ⟨-, rfl⟩ := Outcome.finished_inj.1 (h.symm.trans (Outcome.finished_ok () _).symm)
  exact .of_parents (m.scopes.parents_declare scope name value) rfl

/-- To change a value keeps the shape. -/
theorem keeps_set (scope : ScopeRef) (name : String) (value : Int64) :
    (set scope name value : Exec σ Unit).Keeps := by
  intro m r m' h
  rw [set, ScopeStack.set] at h
  cases howner : m.scopes.owner scope name with
  | none =>
    rw [howner] at h
    obtain ⟨-, rfl⟩ := Outcome.finished_inj.1 (h.symm.trans (Outcome.finished_error _ _).symm)
    exact .refl m
  | some owner =>
    rw [howner] at h
    obtain ⟨-, rfl⟩ := Outcome.finished_inj.1 (h.symm.trans (Outcome.finished_ok _ _).symm)
    exact .of_parents (m.scopes.parents_declare owner name value) rfl

/-- A sequence keeps the shape if each part does. -/
theorem Keeps.bind {x : Exec σ α} {f : α → Exec σ β} (hx : x.Keeps) (hf : ∀ a, (f a).Keeps) :
    (x >>= f).Keeps := by
  intro m r m' h
  rcases (x m).eq_exhausted_or with hm | ⟨r₁, m₁, hm⟩
  · rw [bind_exhausted hm] at h
    exact absurd h.symm (Outcome.finished_ne_exhausted r m')
  cases r₁ with
  | ok a =>
    rw [bind_done hm] at h
    exact (hx m _ m₁ hm).trans (hf a m₁ r m' h)
  | error e =>
    rw [bind_failed hm, ← Outcome.finished_error, Outcome.finished_inj] at h
    obtain ⟨-, rfl⟩ := h
    exact hx m _ m₁ hm

/-- Two steps one after the other keep the shape if each does. -/
theorem Keeps.andThen {x y : Exec σ Flow} (hx : x.Keeps) (hy : y.Keeps) : (x.andThen y).Keeps := by
  refine .bind hx fun flow => ?_
  cases flow with
  | next => exact hy
  | giveBack value => exact keeps_pure _

/-- A scope that is pushed for a step is gone after it. -/
theorem Keeps.withScope {parent : Option ScopeRef} {x : ScopeRef → Exec σ α}
    (h : ∀ ref, (x ref).Keeps) : (Exec.withScope parent x).Keeps := by
  intro m r m' hm
  rw [withScope_eq] at hm
  obtain ⟨r₁, m₁, hx, -, rfl⟩ := Outcome.map_eq_finished hm
  have hshape := h _ _ r₁ m₁ hx
  refine .of_parents ?_ hshape.depth
  have hnext : m.scopes.next.index = m.scopes.parents.length := m.scopes.length_parents.symm
  rw [pop, ScopeStack.parents_pop, hshape.parents, ScopeStack.parents_push, hnext,
    List.take_left']
  rfl

/-- A call that is counted for a step is not counted after it. -/
theorem Keeps.withCall {x : Exec σ α} (h : x.Keeps) : (Exec.withCall x).Keeps := by
  intro m r m' hm
  have hmap : Exec.withCall x m =
      (x { m with depth := m.depth + 1 }).map id fun m₁ => { m₁ with depth := m₁.depth - 1 } := by
    simp only [Exec.withCall]
    cases x { m with depth := m.depth + 1 } <;> rfl
  rw [hmap] at hm
  obtain ⟨r₁, m₁, hx, -, rfl⟩ := Outcome.map_eq_finished hm
  have hshape := h _ r₁ m₁ hx
  refine .of_parents hshape.parents ?_
  have hdepth : m₁.depth = m.depth + 1 := hshape.depth
  simp only [hdepth, Nat.add_sub_cancel]

end Exec

/-! ### Statements and calls -/

namespace Eval

variable {σ : Type} {p : Program} {invoke : Invoke σ}

/-- Every call keeps the shape. -/
def InvokeKeeps (invoke : Invoke σ) : Prop :=
  ∀ method values, (invoke method values).Keeps

/-- A call keeps the shape if the method does. -/
theorem call_keeps (h : InvokeKeeps invoke) (name : String) (args : List Value)
    (scope : ScopeRef) : (call p invoke name args scope).Keeps := by
  intro m r m' hm
  simp only [call] at hm
  split at hm
  · rw [← Outcome.finished_error, Outcome.finished_inj] at hm
    obtain ⟨-, rfl⟩ := hm
    exact .refl m
  · exact h _ _ m r m' hm

/-- The value of a call is assigned without a change of shape. -/
theorem assignResult_keeps (scope : ScopeRef) (name : String) (value : Int64) :
    (assignResult scope name value : Exec σ Unit).Keeps := by
  intro m r m' h
  rw [assignResult] at h
  split at h
  · exact Exec.keeps_set scope name value m r m' h
  · exact Exec.keeps_declare scope name value m r m' h

/-- An assignment keeps the shape: its scope is gone when it ends. -/
theorem runAssignment_keeps (args : List Value) (body : List Statement) (scope : ScopeRef) :
    (runAssignment args body scope : Exec σ Flow).Keeps :=
  .bind (Exec.keeps_lift _) fun name =>
    .bind (.withScope fun child => Exec.keeps_lift fun m => fold m.scopes child body) fun value =>
      .bind (Exec.keeps_set scope name value) fun _ => Exec.keeps_pure _

variable [Sink σ]

/-- An instruction keeps the shape. -/
theorem runInstruction_keeps (h : InvokeKeeps invoke) (op : Op) (args : List Value)
    (scope : ScopeRef) : (runInstruction p invoke op args scope).Keeps := by
  cases op with
  | print =>
    exact .bind (Exec.keeps_lift fun m => printed m.scopes scope args) fun line =>
      .bind (Exec.leaves_writeLine line).keeps fun _ => Exec.keeps_pure _
  | declare =>
    exact .bind (Exec.keeps_lift _) fun name => .bind (Exec.keeps_lift _) fun v =>
      .bind (Exec.keeps_resolve scope v) fun value =>
        .bind (Exec.keeps_declare scope name value) fun _ => Exec.keeps_pure _
  | giveBack =>
    cases args with
    | nil => exact Exec.keeps_pure _
    | cons v rest => exact .bind (Exec.keeps_resolve scope v) fun _ => Exec.keeps_pure _
  | call =>
    exact .bind (Exec.keeps_lift _) fun name => .bind (call_keeps h name _ scope) fun _ =>
      Exec.keeps_pure _
  | callInto =>
    exact .bind (Exec.keeps_lift _) fun destination => .bind (Exec.keeps_lift _) fun name =>
      .bind (call_keeps h name _ scope) fun value =>
        .bind (assignResult_keeps scope destination value) fun _ => Exec.keeps_pure _
  | _ => exact Exec.keeps_fail _

omit [Sink σ] in
/-- However often a loop goes round. -/
theorem iterate_keeps {body : Exec σ Flow} (h : body.Keeps) (test : Value) (scope : ScopeRef)
    (rounds : Nat) : (iterate test scope body rounds).Keeps := by
  induction rounds with
  | zero => exact Exec.keeps_exhausted
  | succ rounds ih =>
    rw [iterate_succ]
    refine .bind (Exec.keeps_resolve scope test) fun n => ?_
    split_ifs
    · exact Exec.keeps_pure _
    · exact .andThen h ih

mutual

/-- **A statement keeps the shape.** -/
theorem runStatement_keeps (h : InvokeKeeps invoke) (fuel : Nat) (scope : ScopeRef)
    (s : Statement) : (runStatement p invoke fuel scope s).Keeps := by
  match s with
  | .expression op args =>
    rw [runStatement]
    exact runInstruction_keeps h op args scope
  | .block .assignment args body =>
    rw [runStatement]
    exact runAssignment_keeps args body scope
  | .block .conditional args body =>
    rw [runStatement_conditional]
    refine .bind (Exec.keeps_lift _) fun v => .bind (Exec.keeps_resolve scope v) fun test => ?_
    split
    · next statements hchosen =>
      have hlt := sizeOf_chosenBranch hchosen
      exact runStatements_keeps h fuel scope statements
    · exact Exec.keeps_fail _
  | .block .loop args body =>
    rw [runStatement]
    refine .bind (Exec.keeps_lift _) fun test => .withScope fun child => ?_
    exact iterate_keeps (runStatements_keeps h fuel child body) test child fuel
  | .block .trueBranch args body =>
    rw [runStatement_misplaced (.inl rfl)]
    exact Exec.keeps_fail _
  | .block .falseBranch args body =>
    rw [runStatement_misplaced (.inr rfl)]
    exact Exec.keeps_fail _
termination_by sizeOf s
decreasing_by all_goals simp only [Statement.block.sizeOf_spec]; omega

/-- A list of statements keeps the shape. -/
theorem runStatements_keeps (h : InvokeKeeps invoke) (fuel : Nat) (scope : ScopeRef)
    (statements : List Statement) : (runStatements p invoke fuel scope statements).Keeps := by
  match statements with
  | [] =>
    rw [runStatements]
    exact Exec.keeps_pure _
  | s :: rest =>
    rw [runStatements_cons]
    exact .andThen (runStatement_keeps h fuel scope s) (runStatements_keeps h fuel scope rest)
termination_by sizeOf statements

end

omit [Sink σ] in
/-- Parameters are bound in a scope that is there. -/
theorem parents_bindParams (scope : ScopeRef) (params : List String) (values : List Int64)
    (st : ScopeStack) : (bindParams scope params values st).parents = st.parents := by
  induction params generalizing values st with
  | nil => rfl
  | cons name names ih =>
    cases values with
    | nil => rfl
    | cons value values => rw [bindParams, ih, ScopeStack.parents_declare]

/-- Runs the body of a method in a scope, on the values of its arguments. -/
def runBody (p : Program) (invoke : Invoke σ) (fuel : Nat) (method : Method)
    (values : List Int64) (scope : ScopeRef) : Exec σ Int64 := fun m =>
  (runStatements p invoke fuel scope method.body
    { m with scopes := bindParams scope method.params values m.scopes }).map Flow.value id

/-- A call that is not refused runs the body in a scope of its own. -/
theorem runMethod_of_not_le {limit fuel : Nat} {m : Machine σ} (h : ¬limit ≤ m.depth)
    (method : Method) (values : List Int64) :
    runMethod p limit (fuel + 1) method values m =
      Exec.withCall (Exec.withScope none
        (runBody p (runMethod p limit fuel) fuel method values)) m := by
  simp only [runMethod, if_neg h, Exec.withCall, Exec.withScope, runBody]
  cases runStatements p (runMethod p limit fuel) fuel m.scopes.next method.body
    { scopes := bindParams m.scopes.next method.params values (m.scopes.push none)
      depth := m.depth + 1
      out := m.out } <;> rfl

/-- The parameters are bound in scopes that are there already. -/
theorem runBody_keeps (h : InvokeKeeps invoke) (fuel : Nat) (method : Method)
    (values : List Int64) (scope : ScopeRef) :
    (runBody p invoke fuel method values scope).Keeps := by
  intro m r m' hm
  obtain ⟨r₁, _, hbody, -, rfl⟩ := Outcome.map_eq_finished hm
  have hbind : m.SameShape { m with scopes := bindParams scope method.params values m.scopes } :=
    .of_parents (parents_bindParams ..) rfl
  exact hbind.trans (runStatements_keeps h fuel scope method.body _ r₁ _ hbody)

/-- **A call keeps the shape**, also when it fails or is refused. -/
theorem runMethod_keeps (limit fuel : Nat) :
    InvokeKeeps (runMethod (σ := σ) p limit fuel) := by
  induction fuel with
  | zero => exact fun _ _ => Exec.keeps_exhausted
  | succ fuel ih =>
    intro method values m r m' h
    by_cases hle : limit ≤ m.depth
    · simp only [runMethod, if_pos hle] at h
      rw [← Outcome.finished_error, Outcome.finished_inj] at h
      obtain ⟨-, rfl⟩ := h
      exact .refl m
    · rw [runMethod_of_not_le hle] at h
      exact Exec.Keeps.withCall (.withScope (runBody_keeps ih fuel method values)) m r m' h

end Eval

namespace Interpreter

variable {σ τ : Type} [Sink σ] [Sink τ] {job : Job}

/-- The entry method keeps the shape: its scope is gone when it ends. -/
theorem runEntry_keeps (job : Job) (fuel : Nat) : (runEntry (σ := σ) job fuel).Keeps :=
  .withScope fun root => Eval.runStatements_keeps (Eval.runMethod_keeps job.limit fuel) fuel root _

/-- Reporting and flushing touch the sinks only. -/
theorem sameShape_conclude (error : Option RuntimeError) (m : Machine σ) (diag : τ) :
    m.SameShape (conclude error m diag).2.machine := by
  simp only [conclude, flush]
  split <;> exact .of_parents rfl rfl

/-- **A run keeps the shape.** -/
theorem run_keeps {fuel : Nat} {i i' : Interpreter σ τ} {result : Except RuntimeError Unit}
    (h : i.run job fuel = some (result, i')) : i.machine.SameShape i'.machine := by
  rw [run] at h
  have hentry := runEntry_keeps (σ := σ) job fuel i.machine
  split at h
  · next flow m hrun =>
    have hshape := hentry (.ok flow) m hrun
    have hend := sameShape_conclude none m i.diag
    rw [Option.some.inj h] at hend
    exact hshape.trans hend
  · next e m hrun =>
    have hshape := hentry (.error e) m hrun
    have hend := sameShape_conclude (some e) m i.diag
    rw [Option.some.inj h] at hend
    exact hshape.trans hend
  · cases h

end Interpreter
end Showtime
