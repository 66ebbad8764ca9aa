/-
# Where a loop falls through

A loop that falls through has read its test as zero (`Runs.get_test`).  It reads the
test in its own scope, which is gone afterwards, so what is known about a variable
then depends on which scope the loop has read it from.

If the body does not declare the variable, other than inside loops of its own, this
was a scope around the loop: the scope of the loop never comes to bind the name
(`Runs.inSightAbove`).  A call with the variable for its destination does not bind
it either, since the variable is in sight and gets the value where it is.
-/

import Showtime.Proofs.Run.Frame

namespace Showtime

open Eval

/-! ### Which statements declare a name -/

namespace Statement

mutual

/-- The statement is a declaration of the name, or owns one that is not inside a loop. -/
def declares (name : String) : Statement → Bool
  | expression .declare (.var declared :: _) => declared == name
  | expression _ _ => false
  | block .loop _ _ => false
  | block _ _ body => anyDeclares name body

/-- One of the statements declares the name, outside of loops. -/
def anyDeclares (name : String) : List Statement → Bool
  | [] => false
  | s :: rest => declares name s || anyDeclares name rest

end

/-- What a conditional runs is a part of it. -/
theorem anyDeclares_of_chosenBranch {name : String} {test : Int64}
    {body statements : List Statement} (hchosen : chosenBranch test body = some statements)
    (h : anyDeclares name body = false) :
    anyDeclares name statements = false := by
  unfold chosenBranch at hchosen
  split at hchosen
  · obtain rfl := Option.some.inj hchosen
    split_ifs
    · rfl
    · simpa [anyDeclares, declares] using h
  · obtain rfl := Option.some.inj hchosen
    simp only [anyDeclares, declares, Bool.or_false, Bool.or_eq_false_iff] at h
    split_ifs
    · exact h.2
    · exact h.1
  · cases hchosen

end Statement

/-- The task declares the name in the scope in which it runs. -/
def Task.declares (name : String) : Task → Bool
  | statement s => s.declares name
  | body statements => Statement.anyDeclares name statements
  | rounds _ statements => Statement.anyDeclares name statements
  | call _ _ => false

/-! ### Names that the first scope does not bind -/

namespace Chain

variable {p : Program} {c c' : Chain} {name : String}

/-- The name has a value, and it is not the first scope that gives it. -/
structure InSightAbove (c : Chain) (name : String) : Prop where
  not_first : name ∉ c.first
  in_sight : (c.lookup name).isSome

/-- Which names have values is all that matters. -/
theorem InSightAbove.of_names (h : c.InSightAbove name) (hnames : c'.names = c.names) :
    c'.InSightAbove name := by
  constructor
  · have hkeys := hnames
    rw [c'.names_eq_cons, c.names_eq_cons] at hkeys
    rw [← Finmap.mem_keys, (List.cons.inj hkeys).1, Finmap.mem_keys]
    exact h.not_first
  · rw [isSome_lookup_iff, hnames, ← isSome_lookup_iff]
    exact h.in_sight

/-- A declaration of another name neither hides this one nor takes it away. -/
theorem InSightAbove.declare {other : String} (h : c.InSightAbove name) (hne : name ≠ other)
    (value : Int64) : (c.declare other value).InSightAbove name := by
  obtain ⟨hfirst, hsight⟩ := h
  cases c with
  | root vars => exact absurd (Finmap.lookup_isSome.1 hsight) hfirst
  | child vars outer =>
    have hnone : vars.lookup name = none := Finmap.lookup_eq_none.2 hfirst
    rw [lookup, hnone, Option.none_or] at hsight
    constructor
    · exact fun h => (Finmap.mem_insert.1 h).elim hne hfirst
    · rw [Chain.declare, lookup, Finmap.lookup_insert_of_ne _ hne, hnone, Option.none_or]
      exact hsight

/-- A destination that is not in sight is another name. -/
theorem InSightAbove.assign (h : c.InSightAbove name) (destination : String) (value : Int64) :
    (c.assign destination value).InSightAbove name := by
  rw [Chain.assign]
  cases hset : c.set? destination value with
  | some c' => exact h.of_names (names_of_set? hset)
  | none =>
    refine h.declare ?_ value
    rintro rfl
    have hsome := c.set?_isSome name value
    rw [hset, h.in_sight] at hsome
    cases hsome

/-- A value that is received is given to the name where it is, or to another one. -/
theorem InSightAbove.receive (h : c.InSightAbove name) (value : Int64)
    (destination : Option String) : (c.receive value destination).InSightAbove name := by
  cases destination with
  | none => exact h
  | some destination => exact h.assign destination value

/-- The one instruction that changes variables at once is the declaration. -/
theorem update_of_instruction {op : Op} {args : List Value}
    (h : c.instruction p op args = .ok (.update c')) :
    ∃ declared rest value, op = .declare ∧ args = .var declared :: rest ∧
      c' = c.declare declared value := by
  cases op with
  | declare =>
    obtain ⟨declared, hdeclared, h⟩ := bind_eq_ok h
    obtain ⟨v, -, h⟩ := bind_eq_ok h
    obtain ⟨value, -, h⟩ := bind_eq_ok h
    obtain ⟨rest, hargs⟩ := target_eq_ok hdeclared
    exact ⟨declared, rest, value, rfl, hargs, (Action.update.inj (Except.ok.inj h)).symm⟩
  | print =>
    obtain ⟨v, -, h⟩ := bind_eq_ok h
    cases v with
    | str s => cases h
    | _ =>
      obtain ⟨n, -, h⟩ := bind_eq_ok h
      cases h
  | giveBack =>
    cases args with
    | nil => cases h
    | cons v rest =>
      obtain ⟨n, -, h⟩ := bind_eq_ok h
      cases h
  | call =>
    obtain ⟨method, -, h⟩ := bind_eq_ok h
    obtain ⟨_, _, _, h, -⟩ := invocation_eq_ok h
    cases h
  | callInto =>
    obtain ⟨destination, -, h⟩ := bind_eq_ok h
    obtain ⟨method, -, h⟩ := bind_eq_ok h
    obtain ⟨_, _, _, h, -⟩ := invocation_eq_ok h
    cases h
  | _ => cases h

/-- A statement that does not declare the name leaves it where it is. -/
theorem InSightAbove.update {s : Statement} (h : c.InSightAbove name)
    (hs : s.declares name = false) (haction : c.action p s = .ok (.update c')) :
    c'.InSightAbove name := by
  match s with
  | .expression op args =>
    obtain ⟨declared, rest, value, rfl, rfl, rfl⟩ := update_of_instruction haction
    refine h.declare ?_ value
    rintro rfl
    simp [Statement.declares] at hs
  | .block .assignment args body => exact h.of_names (names_of_assignment haction)
  | .block .conditional args body =>
    obtain ⟨v, -, haction⟩ := bind_eq_ok haction
    obtain ⟨n, -, haction⟩ := bind_eq_ok haction
    split at haction <;> cases haction
  | .block .loop args body =>
    obtain ⟨test, -, haction⟩ := bind_eq_ok haction
    cases haction
  | .block .trueBranch args body => cases haction
  | .block .falseBranch args body => cases haction

end Chain

/-! ### Runs -/

section

variable {σ : Type} [Sink σ] {p : Program} {limit depth : Nat} {w w' : World σ} {r : Ending}

/-- **A task that does not declare a name leaves it to the scopes above**, if it is in
sight there. -/
theorem Runs.inSightAbove {task : Task} {name : String} (h : Runs p limit depth task w r w')
    (htask : task.declares name = false) (hw : w.chain.InSightAbove name) :
    w'.chain.InSightAbove name := by
  induction h with
  | update haction => exact hw.update htask haction
  | receive => exact hw.receive _ _
  | branch haction _ ih =>
    cases Chain.acts_of_action haction with
    | run _ hchosen =>
      refine ih (Statement.anyDeclares_of_chosenBranch hchosen ?_) hw
      simpa [Task.declares, Statement.declares] using htask
  -- whatever the rounds declare goes to the scope of the inner loop
  | loop _ hrounds => exact hw.of_names hrounds.grows.outer
  | cons _ _ ih₁ ih₂ =>
    obtain ⟨hs, hrest⟩ := Bool.or_eq_false_iff.1 htask
    exact ih₂ hrest (ih₁ hs hw)
  | stop _ _ ih => exact ih (Bool.or_eq_false_iff.1 htask).1 hw
  | round _ _ _ _ ih₁ ih₂ => exact ih₂ htask (ih₁ htask hw)
  | leave _ _ _ _ ih => exact ih htask hw
  | _ => exact hw

/-- **Rounds that fall through end with a test that is zero.** -/
theorem Runs.get_test {test : Value} {body : List Statement}
    (h : Runs p limit depth (.rounds test body) w (.ok .next) w') :
    w'.chain.get test = .ok 0 := by
  generalize htask : Task.rounds test body = task at h
  generalize hr : (.ok .next : Ending) = r at h
  induction h with
  | last h =>
    cases htask
    exact h
  | round _ _ _ _ _ ih => exact ih htask hr
  | leave _ _ _ hne => exact absurd hr.symm hne
  | failTest => cases hr
  | _ => cases htask

/-- Rounds that do not fail have read their test. -/
theorem Runs.exists_get_test {test : Value} {body : List Statement}
    (h : Runs p limit depth (.rounds test body) w (.ok .next) w') :
    ∃ n, w.chain.get test = .ok n := by
  cases h with
  | last h => exact ⟨0, h⟩
  | round h => exact ⟨_, h⟩
  | leave h => exact ⟨_, h⟩

/-- A variable has the value that its name has. -/
theorem Chain.get_var_eq_ok_iff {c : Chain} {name : String} {n : Int64} :
    c.get (.var name) = .ok n ↔ c.lookup name = some n := by
  rw [Chain.get]
  cases c.lookup name <;> simp

/-- A loop runs its rounds in a scope of its own. -/
theorem Runs.rounds_of_loop {test : Value} {args : List Value} {body : List Statement}
    {c c' : Chain} {out out' : σ}
    (h : Runs p limit depth (.statement (.block .loop (test :: args) body)) ⟨c, out⟩ r ⟨c', out'⟩) :
    ∃ vars, Runs p limit depth (.rounds test body) ⟨c.enter, out⟩ r ⟨.child vars c', out'⟩ := by
  cases h with
  | loop h hrounds =>
    cases h
    exact ⟨_, hrounds⟩
  | refuse h | write h | failWrite h | update h | giveBack h | receive h | failCall h | branch h =>
    cases h

/-- **A loop that falls through has driven its test to zero.** -/
theorem Runs.lookup_of_loop {name : String} {args : List Value} {body : List Statement}
    {c c' : Chain} {out out' : σ} (hbody : Statement.anyDeclares name body = false)
    (h : Runs p limit depth (.statement (.block .loop (.var name :: args) body)) ⟨c, out⟩
      (.ok .next) ⟨c', out'⟩) : c'.lookup name = some 0 := by
  obtain ⟨vars, hrounds⟩ := h.rounds_of_loop
  obtain ⟨n, hn⟩ := hrounds.exists_get_test
  have henter : c.enter.InSightAbove name :=
    ⟨Finmap.notMem_empty, by rw [Chain.get_var_eq_ok_iff.1 hn, Option.isSome_some]⟩
  have hlast := Chain.get_var_eq_ok_iff.1 hrounds.get_test
  have hnot : vars.lookup name = none :=
    Finmap.lookup_eq_none.2 (hrounds.inSightAbove hbody henter).not_first
  rwa [Chain.lookup, hnot, Option.none_or] at hlast

end

/-- **A loop that falls through has driven its test to zero.**  Take any state of a run, a
scope that is there, and a loop that runs in it and falls through.

* If the test is a variable that the body does not declare, other than inside loops of
  its own, the variable is in sight from the scope afterwards, and its value is 0.
* If the test is a literal, it is 0. -/
theorem loop_falls_through_at_zero {σ : Type} [Sink σ] (p : Program) (limit : Nat)
    {m : Machine σ} (hm : m.Reachable p limit) (ref : ScopeRef) (hlive : ref.index < m.scopes.size)
    (callFuel fuel : Nat) (test : Value) (args : List Value) (body : List Statement)
    {m' : Machine σ}
    (h : runStatement p (runMethod p limit callFuel) fuel ref (.block .loop (test :: args) body) m =
      .done .next m') :
    (∀ name, test = .var name → Statement.anyDeclares name body = false →
      m'.scopes.lookup ref name = some 0) ∧
    ∀ n, test = .int n → n = 0 := by
  obtain ⟨c, hshows⟩ := hm.linked.exists_shows hlive
  obtain ⟨c', hruns, hshows', -⟩ :=
    runStatement_sound (runMethod_sound callFuel) fuel ref _ (r := .ok .next) hshows h
  constructor
  · rintro name rfl hbody
    rw [hshows'.lookup]
    exact hruns.lookup_of_loop hbody
  · rintro n rfl
    obtain ⟨vars, hrounds⟩ := hruns.rounds_of_loop
    exact Except.ok.inj hrounds.get_test

/-- The body of a loop with the test `x`.  A loop inside it declares the same name, and a
call has the test for its argument and for its destination. -/
def disarming : List Statement :=
  [.block .loop [.var "y"] [.expression .declare [.var "x", .int 7],
      .block .assignment [.var "y"] [.expression .firstOperand [.int 0]]],
    .block .conditional [.var "x"] [.block .trueBranch []
      [.expression .callInto [.var "x", .var "drop", .var "x"]]]]

/-- A program with this loop, in which the call gives back 0. -/
def Program.disarm : Program where
  main := .main [.expression .declare [.var "x", .int 1], .expression .declare [.var "y", .int 1],
    .block .loop [.var "x"] disarming]
  methods := [{ name := "drop", params := ["n"], body := [] }]

/-- The loop goes round once, and the variable of the entry method is 0 then. -/
theorem disarm_falls_through_at_zero :
    let m : Machine Buffer := { scopes := ⟨#[{ parent := none, vars := [("x", 1), ("y", 1)] }]⟩
                                depth := 0, out := .unbounded }
    m.Reachable .disarm 1 ∧ Statement.anyDeclares "x" disarming = false ∧
      ∃ m', runStatement .disarm (runMethod .disarm 1 1) 2 ⟨0⟩
          (.block .loop [.var "x"] disarming) m = .done .next m' ∧
        m'.scopes.lookup ⟨0⟩ "x" = some 0 := by
  intro m
  have hm : m.Reachable .disarm 1 := by
    have hx : perform .disarm 1 0 ⟨0⟩ (.statement (.expression .declare [.var "x", .int 1]))
        (Moment.start .disarm Buffer.unbounded).machine = .done .next _ := rfl
    have hy : perform .disarm 1 0 ⟨0⟩ (.statement (.expression .declare [.var "y", .int 1]))
        { m with scopes := ⟨#[{ parent := none, vars := [("x", 1)] }]⟩ } = .done .next m := rfl
    exact ⟨_, _, .tail (.tail .refl (.rest hx)) (.rest hy), .inl rfl⟩
  have hbody : Statement.anyDeclares "x" disarming = false := by decide
  refine ⟨hm, hbody, _, rfl, ?_⟩
  exact (loop_falls_through_at_zero .disarm 1 hm ⟨0⟩ (by decide) 1 2 (.var "x") [] disarming rfl).1
    "x" rfl hbody

end Showtime
