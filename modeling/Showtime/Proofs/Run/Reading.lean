/-
# What reading a statement can give

A statement is read before it does anything (`Chain.action`).  Proofs about whole
runs need two things of this and no more: what a statement of each kind can be
about to do (`Chain.acts_of_action`), and that reading, whatever else is wrong,
never fails for too many calls (`Chain.action_shallow`).
-/

import Showtime.Proofs.Run.Reference

namespace Showtime

open Eval

/-- The instruction calls the method of a name with these arguments. -/
inductive Statement.Calls : Statement → String → List Value → Prop
  | call (name : String) (args : List Value) :
    Calls (.expression .call (.var name :: args)) name args
  | callInto (destination name : String) (args : List Value) :
    Calls (.expression .callInto (.var destination :: .var name :: args)) name args

/-! ### Which statements act so -/

namespace Eval

/-- The first operand is the first argument. -/
theorem operand_eq_ok {phrase : String} {args : List Value} {v : Value}
    (h : operand phrase args 0 = .ok v) : ∃ rest, args = v :: rest := by
  cases args with
  | nil => cases h
  | cons head rest =>
    obtain rfl := Except.ok.inj h
    exact ⟨rest, rfl⟩

/-- The name of a method is the variable at its index. -/
theorem methodName_eq_ok {phrase : String} {args : List Value} {index : Nat} {name : String}
    (h : methodName phrase args index = .ok name) :
    ∃ rest, args.drop index = .var name :: rest := by
  rw [methodName] at h
  split at h
  · cases h
  · next found hfound =>
    obtain rfl := Except.ok.inj h
    obtain ⟨hlt, hget⟩ := List.getElem?_eq_some_iff.1 hfound
    exact ⟨args.drop (index + 1), by rw [List.drop_eq_getElem_cons hlt, hget]⟩
  · cases h

/-- The target is the first argument, and a variable. -/
theorem target_eq_ok {phrase : String} {args : List Value} {name : String}
    (h : target phrase args = .ok name) : ∃ rest, args = .var name :: rest := by
  rw [target.eq_def] at h
  split at h
  · cases h
  · next found rest =>
    obtain rfl := Except.ok.inj h
    exact ⟨rest, rfl⟩
  · cases h

end Eval

namespace Chain

/-- What a statement can be about to do, by its kind. -/
inductive Acts (p : Program) (c : Chain) : Statement → Action → Prop
  | write {s} (line : String) : Acts p c s (.write line)
  | declare {s} (name : String) (value : Int64) : Acts p c s (.update (c.declare name value))
  | assign {s name value c'} (h : c.set? name value = some c') : Acts p c s (.update c')
  | giveBack {s} (value : Int64) : Acts p c s (.giveBack value)
  | call {s name args method values destination} (hcalls : s.Calls name args)
    (hmethod : p.method? name = some method) (harity : method.params.length = args.length)
    (hvalues : args.mapM c.get = .ok values) : Acts p c s (.call method values destination)
  | run {v args body n statements} (hv : c.get v = .ok n)
    (hchosen : chosenBranch n body = some statements) :
    Acts p c (.block .conditional (v :: args) body) (.run statements)
  | loop {test args body} : Acts p c (.block .loop (test :: args) body) (.loop test body)

variable {p : Program} {c : Chain} {s : Statement}

/-- A name is set only where it is found. -/
theorem set_eq_ok {name : String} {value : Int64} {c' : Chain} (h : c.set name value = .ok c') :
    c.set? name value = some c' := by
  rw [set] at h
  split at h
  · next hsome =>
    obtain rfl := Except.ok.inj h
    exact hsome
  · cases h

/-- A call that can be made is about to call the first method of its name. -/
theorem acts_of_invocation {name : String} {args : List Value} {destination : Option String}
    {a : Action} (hcalls : s.Calls name args) (h : c.invocation p name args destination = .ok a) :
    Acts p c s a := by
  rw [invocation] at h
  split at h
  · cases h
  · next method hmethod =>
    split_ifs at h with harity
    obtain ⟨values, hvalues, h⟩ := bind_eq_ok h
    obtain rfl := Except.ok.inj h
    exact .call hcalls hmethod harity hvalues

/-- What an instruction is about to do goes by its kind. -/
theorem acts_of_instruction {op : Op} {args : List Value} {a : Action}
    (h : c.instruction p op args = .ok a) : Acts p c (.expression op args) a := by
  cases op with
  | print =>
    obtain ⟨v, -, h⟩ := bind_eq_ok h
    cases v with
    | str s =>
      obtain rfl := Except.ok.inj h
      exact .write s
    | _ =>
      obtain ⟨n, -, h⟩ := bind_eq_ok h
      obtain rfl := Except.ok.inj h
      exact .write _
  | declare =>
    obtain ⟨name, -, h⟩ := bind_eq_ok h
    obtain ⟨v, -, h⟩ := bind_eq_ok h
    obtain ⟨n, -, h⟩ := bind_eq_ok h
    obtain rfl := Except.ok.inj h
    exact .declare name n
  | giveBack =>
    cases args with
    | nil =>
      obtain rfl := Except.ok.inj h
      exact .giveBack 0
    | cons v rest =>
      obtain ⟨n, -, h⟩ := bind_eq_ok h
      obtain rfl := Except.ok.inj h
      exact .giveBack n
  | call =>
    obtain ⟨name, hname, h⟩ := bind_eq_ok h
    obtain ⟨rest, hrest⟩ := methodName_eq_ok hname
    obtain rfl : args = .var name :: rest := hrest
    exact acts_of_invocation (.call name rest) h
  | callInto =>
    obtain ⟨destination, hdestination, h⟩ := bind_eq_ok h
    obtain ⟨name, hname, h⟩ := bind_eq_ok h
    obtain ⟨args, rfl⟩ := target_eq_ok hdestination
    obtain ⟨rest, hrest⟩ := methodName_eq_ok hname
    obtain rfl : args = .var name :: rest := hrest
    exact acts_of_invocation (.callInto destination name rest) h
  | _ => cases h

/-- **What a statement is about to do tells which statement it is.** -/
theorem acts_of_action {a : Action} (h : c.action p s = .ok a) : Acts p c s a := by
  match s with
  | .expression op args => exact acts_of_instruction h
  | .block .assignment args body =>
    obtain ⟨name, -, h⟩ := bind_eq_ok h
    obtain ⟨n, -, h⟩ := bind_eq_ok h
    obtain ⟨c', hset, h⟩ := bind_eq_ok h
    obtain rfl := Except.ok.inj h
    exact .assign (set_eq_ok hset)
  | .block .conditional args body =>
    obtain ⟨v, hv, h⟩ := bind_eq_ok h
    obtain ⟨n, hn, h⟩ := bind_eq_ok h
    split at h
    · next statements hchosen =>
      obtain rfl := Except.ok.inj h
      obtain ⟨rest, rfl⟩ := operand_eq_ok hv
      exact .run hn hchosen
    · cases h
  | .block .loop args body =>
    obtain ⟨test, htest, h⟩ := bind_eq_ok h
    obtain rfl := Except.ok.inj h
    obtain ⟨rest, rfl⟩ := operand_eq_ok htest
    exact .loop
  | .block .trueBranch args body => cases h
  | .block .falseBranch args body => cases h

end Chain

/-! ### Reading a statement exceeds no limit -/

/-- The computation does not fail for too many calls. -/
def Shallow {α : Type} (x : Except RuntimeError α) : Prop :=
  ∀ n, x ≠ .error (.callDepthExceeded n)

/-- A value is no failure. -/
theorem shallow_ok {α : Type} (a : α) : Shallow (.ok a) := by
  rintro n ⟨⟩

/-- A sequence does not fail for too many calls if no part does. -/
theorem Shallow.bind {α β : Type} {x : Except RuntimeError α} {f : α → Except RuntimeError β}
    (hx : Shallow x) (hf : ∀ a, Shallow (f a)) : Shallow (x >>= f) := by
  cases x with
  | error e => exact fun n h => hx n (congrArg _ (Except.error.inj h))
  | ok a => exact hf a

namespace Eval

/-- An operand that is missing is another failure. -/
theorem operand_shallow {phrase : String} {args : List Value} {index : Nat} :
    Shallow (operand phrase args index) := by
  rw [operand]
  split <;> rintro n ⟨⟩

/-- A method name that is missing is another failure. -/
theorem methodName_shallow {phrase : String} {args : List Value} {index : Nat} :
    Shallow (methodName phrase args index) := by
  rw [methodName]
  split <;> rintro n ⟨⟩

/-- A target that is missing or no variable is another failure. -/
theorem target_shallow {phrase : String} {args : List Value} : Shallow (target phrase args) := by
  rw [target.eq_def]
  split <;> rintro n ⟨⟩

/-- A division by zero is another failure. -/
theorem apply_shallow (op : Op) (acc rhs : Int64) : Shallow (apply op acc rhs) := by
  cases op with
  | divide =>
    rw [apply]
    split_ifs <;> rintro n ⟨⟩
  | _ => rintro n ⟨⟩

end Eval

namespace Chain

variable (p : Program) (c : Chain)

/-- A variable that is not in sight is another failure. -/
theorem get_shallow (v : Value) : Shallow (c.get v) := by
  cases v with
  | var name =>
    rw [get]
    cases c.lookup name <;> rintro n ⟨⟩
  | _ => rintro n ⟨⟩

/-- A step of a fold does not fail for too many calls. -/
theorem foldStep_shallow (acc : Int64) (s : Statement) : Shallow (c.foldStep acc s) := by
  cases s with
  | block kind args body => rintro n ⟨⟩
  | expression op args =>
    rw [foldStep]
    split_ifs
    · exact operand_shallow.bind fun v => (c.get_shallow v).bind fun rhs =>
        apply_shallow op acc rhs
    · rintro n ⟨⟩

/-- A fold does not fail for too many calls. -/
theorem fold_shallow (body : List Statement) : Shallow (c.fold body) := by
  have hsteps (steps : List Statement) (acc : Int64) : Shallow (steps.foldlM c.foldStep acc) := by
    induction steps generalizing acc with
    | nil => exact shallow_ok acc
    | cons s rest ih =>
      rw [List.foldlM_cons]
      exact (c.foldStep_shallow acc s).bind ih
  rw [fold.eq_def]
  split
  · exact operand_shallow.bind fun v => (c.get_shallow v).bind fun n => hsteps _ n
  · rintro n ⟨⟩

/-- To prepare a call is not to make it. -/
theorem invocation_shallow (name : String) (args : List Value) (destination : Option String) :
    Shallow (c.invocation p name args destination) := by
  have hargs : Shallow (args.mapM c.get) := by
    induction args with
    | nil => exact shallow_ok []
    | cons v rest ih =>
      rw [List.mapM_cons]
      exact (c.get_shallow v).bind fun n => ih.bind fun ns => shallow_ok _
  rw [invocation]
  split
  · rintro n ⟨⟩
  · split_ifs
    · exact hargs.bind fun values => shallow_ok _
    · rintro n ⟨⟩

/-- An instruction that is read does not fail for too many calls. -/
theorem instruction_shallow (op : Op) (args : List Value) :
    Shallow (c.instruction p op args) := by
  cases op with
  | print =>
    refine operand_shallow.bind fun v => ?_
    cases v with
    | str s => exact shallow_ok _
    | _ => exact (c.get_shallow _).bind fun n => shallow_ok _
  | declare =>
    exact target_shallow.bind fun name => operand_shallow.bind fun v =>
      (c.get_shallow v).bind fun n => shallow_ok _
  | giveBack =>
    cases args with
    | nil => exact shallow_ok _
    | cons v rest => exact (c.get_shallow v).bind fun n => shallow_ok _
  | call => exact methodName_shallow.bind fun name => c.invocation_shallow p name _ _
  | callInto =>
    exact target_shallow.bind fun destination => methodName_shallow.bind fun name =>
      c.invocation_shallow p name _ _
  | _ => rintro n ⟨⟩

/-- **A statement that is only read exceeds no limit.** -/
theorem action_shallow (s : Statement) : Shallow (c.action p s) := by
  cases s with
  | expression op args => exact c.instruction_shallow p op args
  | block kind args body =>
    cases kind with
    | assignment =>
      refine target_shallow.bind fun name => (c.fold_shallow body).bind fun n =>
        .bind ?_ fun c' => shallow_ok _
      rw [set]
      split <;> rintro n ⟨⟩
    | conditional =>
      refine operand_shallow.bind fun v => (c.get_shallow v).bind fun n => ?_
      split <;> rintro n ⟨⟩
    | loop => exact operand_shallow.bind fun test => shallow_ok _
    | _ => rintro n ⟨⟩

end Chain

end Showtime
