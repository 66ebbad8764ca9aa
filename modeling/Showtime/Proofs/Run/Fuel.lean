/-
# More fuel

Fuel decides whether a run is followed to its end, never how it ends: a step
that finishes within its fuel finishes alike with more (`runMethod_extended`,
`runStatements_extended`).  So a program has at most one outcome, whatever fuel
it takes to see it.
-/

import Showtime.Proofs.Run.Reference

namespace Showtime

/-- A finished outcome: a value or an error, and the state then. -/
def Outcome.finished {σ α : Type} (r : Except RuntimeError α) (m : Machine σ) : Outcome σ α :=
  match r with
  | .ok a => .done a m
  | .error e => .failed e m

/-- An end with a value. -/
@[simp]
theorem Outcome.finished_ok {σ α : Type} (a : α) (m : Machine σ) :
    Outcome.finished (.ok a) m = .done a m := rfl

/-- An end with an error. -/
@[simp]
theorem Outcome.finished_error {σ α : Type} (e : RuntimeError) (m : Machine σ) :
    Outcome.finished (.error e : Except RuntimeError α) m = .failed e m := rfl

/-- What has finished has not run out of fuel. -/
@[simp]
theorem Outcome.finished_ne_exhausted {σ α : Type} (r : Except RuntimeError α) (m : Machine σ) :
    Outcome.finished r m ≠ .exhausted := by
  cases r <;> simp

/-- An end is known by its result and its state. -/
@[simp]
theorem Outcome.finished_inj {σ α : Type} {r r' : Except RuntimeError α} {m m' : Machine σ} :
    Outcome.finished r m = Outcome.finished r' m' ↔ r = r' ∧ m = m' := by
  cases r <;> cases r' <;> simp

/-- An outcome is finished, or the fuel did not suffice. -/
theorem Outcome.eq_exhausted_or {σ α : Type} (o : Outcome σ α) :
    o = .exhausted ∨ ∃ r m, o = .finished r m := by
  cases o with
  | done a m => exact .inr ⟨.ok a, m, rfl⟩
  | failed e m => exact .inr ⟨.error e, m, rfl⟩
  | exhausted => exact .inl rfl

/-- An outcome with its value and its state changed. -/
def Outcome.map {σ α β : Type} (f : α → β) (g : Machine σ → Machine σ) :
    Outcome σ α → Outcome σ β
  | .done a m => .done (f a) (g m)
  | .failed e m => .failed e (g m)
  | .exhausted => .exhausted

/-- Changing an outcome that has finished changes its result and its state. -/
theorem Outcome.map_finished {σ α β : Type} (f : α → β) (g : Machine σ → Machine σ)
    (r : Except RuntimeError α) (m : Machine σ) :
    (Outcome.finished r m).map f g = .finished (r.map f) (g m) := by
  cases r <;> rfl

/-- What has finished after a change had finished before it. -/
theorem Outcome.map_eq_finished {σ α β : Type} {f : α → β} {g : Machine σ → Machine σ}
    {o : Outcome σ α} {r : Except RuntimeError β} {m : Machine σ} (h : o.map f g = .finished r m) :
    ∃ r' m', o = .finished r' m' ∧ r = r'.map f ∧ m = g m' := by
  rcases o.eq_exhausted_or with rfl | ⟨r', m', rfl⟩
  · exact absurd h.symm (finished_ne_exhausted r m)
  · rw [map_finished, finished_inj] at h
    exact ⟨r', m', rfl, h.1.symm, h.2.symm⟩

namespace Exec

variable {σ α β : Type}

/-! ### Steps one after another -/

/-- A value is given at once. -/
@[simp]
theorem pure_apply (a : α) (m : Machine σ) : (Pure.pure a : Exec σ α) m = .done a m := rfl

/-- After a step that gives a value comes the next one. -/
theorem bind_done {x : Exec σ α} {f : α → Exec σ β} {m m' : Machine σ} {a : α}
    (h : x m = .done a m') : (x >>= f) m = f a m' := by
  change Exec.bind x f m = _
  rw [Exec.bind, h]

/-- A step that fails ends the sequence. -/
theorem bind_failed {x : Exec σ α} {f : α → Exec σ β} {m m' : Machine σ} {e : RuntimeError}
    (h : x m = .failed e m') : (x >>= f) m = .failed e m' := by
  change Exec.bind x f m = _
  rw [Exec.bind, h]

/-- A step that runs out of fuel ends the sequence. -/
theorem bind_exhausted {x : Exec σ α} {f : α → Exec σ β} {m : Machine σ}
    (h : x m = .exhausted) : (x >>= f) m = .exhausted := by
  change Exec.bind x f m = _
  rw [Exec.bind, h]

/-- One step and, if it falls through, another. -/
def andThen (x y : Exec σ Flow) : Exec σ Flow :=
  x >>= fun flow =>
    match flow with
    | .next => y
    | .giveBack value => Pure.pure (.giveBack value)

/-- The second step runs where the first falls through. -/
theorem andThen_next {x y : Exec σ Flow} {m m' : Machine σ} (h : x m = .done .next m') :
    x.andThen y m = y m' :=
  bind_done h

/-- The second step does not run where the first returns or fails. -/
theorem andThen_stop {x y : Exec σ Flow} {m m' : Machine σ} {r : Except RuntimeError Flow}
    (h : x m = .finished r m') (hr : r ≠ .ok .next) : x.andThen y m = .finished r m' := by
  match r with
  | .error e => exact bind_failed h
  | .ok (.giveBack value) => exact bind_done h
  | .ok .next => exact absurd rfl hr

/-- The first step has fallen through, or it was the last. -/
theorem andThen_cases {x y : Exec σ Flow} {m m' : Machine σ} {r : Except RuntimeError Flow}
    (h : x.andThen y m = .finished r m') :
    (∃ m₁, x m = .done .next m₁ ∧ y m₁ = .finished r m') ∨
      (x m = .finished r m' ∧ r ≠ .ok .next) := by
  rcases (x m).eq_exhausted_or with hx | ⟨r₁, m₁, hx⟩
  · rw [andThen, bind_exhausted hx] at h
    exact absurd h.symm (Outcome.finished_ne_exhausted r m')
  by_cases hr₁ : r₁ = .ok .next
  · subst hr₁
    exact .inl ⟨m₁, hx, (andThen_next hx).symm.trans h⟩
  · rw [andThen_stop hx hr₁, Outcome.finished_inj] at h
    obtain ⟨rfl, rfl⟩ := h
    exact .inr ⟨hx, hr₁⟩

/-- A step in a fresh scope is the step on the longer stack, which is cut back however
it ends. -/
theorem withScope_eq (parent : Option ScopeRef) (x : ScopeRef → Exec σ α) (m : Machine σ) :
    Exec.withScope parent x m =
      (x m.scopes.next { m with scopes := m.scopes.push parent }).map id (pop m.scopes.next) := by
  obtain ⟨st, depth, out⟩ := m
  simp only [Exec.withScope]
  cases x st.next { scopes := st.push parent, depth, out } <;> rfl

/-! ### Steps that differ in fuel only -/

/-- Where the first step does not run out of fuel, the second ends alike. -/
def ExtendedBy (x y : Exec σ α) : Prop := ∀ m, x m = .exhausted ∨ x m = y m

/-- A step is extended by itself. -/
theorem ExtendedBy.refl (x : Exec σ α) : x.ExtendedBy x := fun _ => .inr rfl

/-- Every step goes further than one without fuel. -/
theorem exhausted_extendedBy (x : Exec σ α) : Exec.exhausted.ExtendedBy x := fun _ => .inl rfl

/-- What has finished ends alike with more fuel. -/
theorem ExtendedBy.finished {x y : Exec σ α} (h : x.ExtendedBy y) {m m' : Machine σ}
    {r : Except RuntimeError α} (hx : x m = .finished r m') : y m = .finished r m' := by
  rcases h m with h | h
  · rw [h] at hx
    exact absurd hx.symm (Outcome.finished_ne_exhausted r m')
  · rw [← h, hx]

/-- Steps with more fuel go further in sequence. -/
theorem ExtendedBy.bind {x y : Exec σ α} {f g : α → Exec σ β} (h : x.ExtendedBy y)
    (hf : ∀ a, (f a).ExtendedBy (g a)) : (x >>= f).ExtendedBy (y >>= g) := by
  intro m
  cases hx : x m with
  | done a m' =>
    rw [bind_done hx, bind_done (h.finished (r := .ok a) hx)]
    exact hf a m'
  | failed e m' =>
    rw [bind_failed hx, bind_failed (h.finished (r := .error e) hx)]
    exact .inr rfl
  | exhausted => exact .inl (bind_exhausted hx)

/-- Steps with more fuel go further one after the other. -/
theorem ExtendedBy.andThen {x y x' y' : Exec σ Flow} (hx : x.ExtendedBy x')
    (hy : y.ExtendedBy y') : (x.andThen y).ExtendedBy (x'.andThen y') := by
  refine .bind hx fun flow => ?_
  cases flow with
  | next => exact hy
  | giveBack value => exact .refl _

/-- Steps with more fuel go further in a fresh scope. -/
theorem ExtendedBy.withScope {parent : Option ScopeRef} {x y : ScopeRef → Exec σ α}
    (h : ∀ ref, (x ref).ExtendedBy (y ref)) :
    (Exec.withScope parent x).ExtendedBy (Exec.withScope parent y) := by
  intro m
  rw [withScope_eq, withScope_eq]
  rcases h m.scopes.next { m with scopes := m.scopes.push parent } with h | h
  · exact .inl (by rw [h, Outcome.map])
  · exact .inr (by rw [h])

/-- Steps with more fuel go further inside a call. -/
theorem ExtendedBy.withCall {x y : Exec σ α} (h : x.ExtendedBy y) :
    (Exec.withCall x).ExtendedBy (Exec.withCall y) := by
  intro m
  simp only [Exec.withCall]
  rcases h { m with depth := m.depth + 1 } with h | h
  · exact .inl (by rw [h])
  · exact .inr (by rw [h])

end Exec

namespace Eval

variable {σ : Type} {p : Program}

/-- Every call with the first is extended by the call with the second. -/
def InvokeExtendedBy (invoke invoke' : Invoke σ) : Prop :=
  ∀ method values, (invoke method values).ExtendedBy (invoke' method values)

/-- A call goes further if the methods do. -/
theorem call_extended {invoke invoke' : Invoke σ} (h : InvokeExtendedBy invoke invoke')
    (name : String) (args : List Value) (scope : ScopeRef) :
    (call p invoke name args scope).ExtendedBy (call p invoke' name args scope) := by
  intro m
  simp only [call]
  split
  · exact .inr rfl
  · exact h _ _ m

/-- An instruction goes further if the methods do. -/
theorem runInstruction_extended [Sink σ] {invoke invoke' : Invoke σ}
    (h : InvokeExtendedBy invoke invoke') (op : Op) (args : List Value) (scope : ScopeRef) :
    (runInstruction p invoke op args scope).ExtendedBy
      (runInstruction p invoke' op args scope) := by
  cases op with
  | call => exact .bind (.refl _) fun name => .bind (call_extended h name _ _) fun _ => .refl _
  | callInto =>
    exact .bind (.refl _) fun _ => .bind (.refl _) fun name =>
      .bind (call_extended h name _ _) fun _ => .refl _
  | _ => exact .refl _

/-- One round of a loop, then the others. -/
theorem iterate_succ (test : Value) (scope : ScopeRef) (body : Exec σ Flow) (rounds : Nat) :
    iterate test scope body (rounds + 1) = Exec.resolve scope test >>= fun n =>
      if n = 0 then pure .next else body.andThen (iterate test scope body rounds) := rfl

/-- A loop with more rounds, each with more fuel. -/
theorem iterate_extended {body body' : Exec σ Flow} (h : body.ExtendedBy body') (test : Value)
    (scope : ScopeRef) {rounds rounds' : Nat} (hle : rounds ≤ rounds') :
    (iterate test scope body rounds).ExtendedBy (iterate test scope body' rounds') := by
  induction rounds generalizing rounds' with
  | zero => exact Exec.exhausted_extendedBy _
  | succ rounds ih =>
    obtain ⟨rounds', rfl⟩ := Nat.exists_eq_add_one.2 (Nat.zero_lt_of_lt hle)
    rw [iterate_succ, iterate_succ]
    refine .bind (.refl _) fun n => ?_
    split_ifs
    · exact .refl _
    · exact .andThen h (ih (Nat.le_of_succ_le_succ hle))

/-- A list of statements runs one after the other. -/
theorem runStatements_cons [Sink σ] (invoke : Invoke σ) (fuel : Nat) (scope : ScopeRef)
    (s : Statement) (rest : List Statement) :
    runStatements p invoke fuel scope (s :: rest) =
      (runStatement p invoke fuel scope s).andThen (runStatements p invoke fuel scope rest) := by
  rw [runStatements]
  rfl

/-- A conditional runs the chosen branch in its own scope. -/
theorem runStatement_conditional [Sink σ] (invoke : Invoke σ) (fuel : Nat) (scope : ScopeRef)
    (args : List Value) (body : List Statement) :
    runStatement p invoke fuel scope (.block .conditional args body) = (do
      let v ← Exec.lift (operand BlockKind.conditional.text args 0)
      let test ← Exec.resolve scope v
      match chosenBranch test body with
      | some statements => runStatements p invoke fuel scope statements
      | none => Exec.fail .malformedConditional) := by
  rw [runStatement]
  congr 1
  funext v
  congr 1
  funext test
  split
  · rw [chosenBranch]
    split_ifs
    · simp only [runStatements]
    · rfl
  · rw [chosenBranch]
    split_ifs <;> rfl
  · next h₁ h₂ => rw [chosenBranch.eq_3 test body h₁ h₂]

/-- A branch that stands on its own cannot run. -/
theorem runStatement_misplaced [Sink σ] {invoke : Invoke σ} {fuel : Nat} {scope : ScopeRef}
    {kind : BlockKind} {args : List Value} {body : List Statement}
    (h : kind = .trueBranch ∨ kind = .falseBranch) :
    runStatement p invoke fuel scope (.block kind args body) =
      Exec.fail (.unknownInstruction kind.text) := by
  rcases h with rfl | rfl <;> rw [runStatement] <;> simp

mutual

/-- A statement goes further with more fuel, for its loops and for the methods it calls.
-/
theorem runStatement_extended [Sink σ] {invoke invoke' : Invoke σ}
    (h : InvokeExtendedBy invoke invoke') {fuel fuel' : Nat} (hle : fuel ≤ fuel')
    (scope : ScopeRef) (s : Statement) :
    (runStatement p invoke fuel scope s).ExtendedBy (runStatement p invoke' fuel' scope s) := by
  match s with
  | .expression op args =>
    rw [runStatement, runStatement]
    exact runInstruction_extended h op args scope
  | .block .assignment args body =>
    rw [runStatement, runStatement]
    exact .refl _
  | .block .conditional args body =>
    rw [runStatement_conditional, runStatement_conditional]
    refine .bind (.refl _) fun v => .bind (.refl _) fun test => ?_
    split
    · next statements hchosen =>
      have hlt := sizeOf_chosenBranch hchosen
      exact runStatements_extended h hle scope statements
    · exact .refl _
  | .block .loop args body =>
    rw [runStatement, runStatement]
    refine .bind (.refl _) fun test => .withScope fun child => ?_
    exact iterate_extended (runStatements_extended h hle child body) test child hle
  | .block .trueBranch args body =>
    rw [runStatement_misplaced (.inl rfl), runStatement_misplaced (.inl rfl)]
    exact .refl _
  | .block .falseBranch args body =>
    rw [runStatement_misplaced (.inr rfl), runStatement_misplaced (.inr rfl)]
    exact .refl _
termination_by sizeOf s
decreasing_by all_goals simp only [Statement.block.sizeOf_spec]; omega

/-- A list of statements goes further with more fuel. -/
theorem runStatements_extended [Sink σ] {invoke invoke' : Invoke σ}
    (h : InvokeExtendedBy invoke invoke') {fuel fuel' : Nat} (hle : fuel ≤ fuel')
    (scope : ScopeRef) (statements : List Statement) :
    (runStatements p invoke fuel scope statements).ExtendedBy
      (runStatements p invoke' fuel' scope statements) := by
  match statements with
  | [] =>
    rw [runStatements, runStatements]
    exact .refl _
  | s :: rest =>
    rw [runStatements_cons, runStatements_cons]
    exact .andThen (runStatement_extended h hle scope s) (runStatements_extended h hle scope rest)
termination_by sizeOf statements

end

/-- **More fuel keeps a finished call.** -/
theorem runMethod_extended [Sink σ] (limit : Nat) {fuel fuel' : Nat} (hle : fuel ≤ fuel') :
    InvokeExtendedBy (runMethod (σ := σ) p limit fuel) (runMethod p limit fuel') := by
  induction fuel generalizing fuel' with
  | zero => exact fun _ _ => Exec.exhausted_extendedBy _
  | succ fuel ih =>
    obtain ⟨fuel', rfl⟩ := Nat.exists_eq_add_one.2 (Nat.zero_lt_of_lt hle)
    have hle := Nat.le_of_succ_le_succ hle
    intro method values m
    simp only [runMethod]
    split_ifs
    · exact .inr rfl
    · refine Exec.ExtendedBy.withCall (.withScope fun scope m => ?_) m
      obtain ⟨scopes, depth, out⟩ := m
      rcases runStatements_extended (p := p) (ih hle) hle scope method.body
        { scopes := bindParams scope method.params values scopes, depth, out } with h | h
      · exact .inl (by simp only [h])
      · exact .inr (by simp only [h])

end Eval
end Showtime
