/-
# The plain semantics

What a program means, said with chains of finite maps and without a stack,
places or fuel.  A statement is read against the chain first (`Chain.action`):
this finds out what it is about to do, or why it cannot do it.  `Runs` then says
how a statement, a list of statements, the rounds of a loop or a call ends.

| statement | what it does to the chain |
| --- | --- |
| declaration | writes the first map |
| assignment block | computes its fold on the chain, then changes its target |
| conditional | runs the chosen branch on the same chain |
| loop | adds an empty map for all its rounds and drops it at the end |
| call | runs the method on a chain of one map, which holds its parameters |

A run that does not stop has no derivation.
-/

import Showtime.Proofs.Scope.Chain
import Showtime.Run.Interpreter

namespace Showtime

/-! ### Computations that can fail -/

/-- A sequence gives a value only if all its parts do. -/
theorem bind_eq_ok {α β : Type} {x : Except RuntimeError α} {f : α → Except RuntimeError β}
    {b : β} (h : x >>= f = .ok b) : ∃ a, x = .ok a ∧ f a = .ok b := by
  cases x with
  | error e => cases h
  | ok a => exact ⟨a, rfl, h⟩

/-! ### Reading a statement -/

/-- What a statement is about to do. -/
inductive Action where
  /-- Writes a line. -/
  | write (line : String)
  /-- Goes on with other variables. -/
  | update (chain : Chain)
  | giveBack (value : Int64)
  /-- Calls a method and gives the value to the destination, if there is one. -/
  | call (method : Method) (values : List Int64) (destination : Option String)
  /-- Runs statements on the same chain. -/
  | run (statements : List Statement)
  | loop (test : Value) (body : List Statement)

/-- Something that runs to an end. -/
inductive Task where
  | statement (s : Statement)
  | body (statements : List Statement)
  /-- What remains of a loop, in the scope of the loop. -/
  | rounds (test : Value) (body : List Statement)
  | call (method : Method) (values : List Int64)

/-- What runs as a part of the action. -/
def Action.task? : Action → Option Task
  | call method values _ => some (.call method values)
  | run statements => some (.body statements)
  | loop test body => some (.rounds test body)
  | _ => none

/-- The statements that run as a part of the action. -/
def Action.nested : Action → List Statement
  | run statements => statements
  | loop _ body => body
  | _ => []

/-- The statements that a conditional runs when its test has this value: those of
the true branch, those of the false branch or none.  There is no answer unless
the conditional consists of a true branch and at most a false one. -/
def chosenBranch (test : Int64) : List Statement → Option (List Statement)
  | [.block .trueBranch _ then_] => some (if test = 0 then [] else then_)
  | [.block .trueBranch _ then_, .block .falseBranch _ else_] =>
    some (if test = 0 then else_ else then_)
  | _ => none

/-- The statements that a conditional runs are a proper part of it. -/
theorem sizeOf_chosenBranch {test : Int64} {body statements : List Statement}
    (h : chosenBranch test body = some statements) : sizeOf statements < sizeOf body := by
  unfold chosenBranch at h
  split at h
  · obtain rfl := Option.some.inj h
    simp only [List.cons.sizeOf_spec, List.nil.sizeOf_spec, Statement.block.sizeOf_spec]
    split_ifs
    · rw [List.nil.sizeOf_spec]
      omega
    · omega
  · obtain rfl := Option.some.inj h
    simp only [List.cons.sizeOf_spec, List.nil.sizeOf_spec, Statement.block.sizeOf_spec]
    split_ifs <;> omega
  · cases h

/-- A conditional runs nothing or what one of its blocks owns. -/
theorem mem_of_chosenBranch {test : Int64} {body statements : List Statement}
    (h : chosenBranch test body = some statements) :
    statements = [] ∨ ∃ kind args, Statement.block kind args statements ∈ body := by
  unfold chosenBranch at h
  split at h
  · obtain rfl := Option.some.inj h
    split_ifs
    · exact .inl rfl
    · exact .inr ⟨_, _, List.mem_cons_self⟩
  · obtain rfl := Option.some.inj h
    split_ifs
    · exact .inr ⟨_, _, List.mem_cons_of_mem _ List.mem_cons_self⟩
    · exact .inr ⟨_, _, List.mem_cons_self⟩
  · cases h

namespace Chain

/-- Applies one step of a fold. -/
def foldStep (c : Chain) (acc : Int64) : Statement → Except RuntimeError Int64
  | .expression op args =>
    if op.isFold then do Eval.apply op acc (← c.get (← Eval.operand op.text args 0))
    else .error (Eval.notAnOperator op)
  | .block kind _ _ => .error (.malformedAssignment ("unexpected " ++ kind.text ++ " block"))

/-- The value of a fold: a first operand, then steps from left to right. -/
def fold (c : Chain) : List Statement → Except RuntimeError Int64
  | .expression .firstOperand args :: steps => do
    steps.foldlM c.foldStep (← c.get (← Eval.operand Op.firstOperand.text args 0))
  | _ => .error (.malformedAssignment ("expected " ++ Op.firstOperand.text ++ " first"))

/-- A call of the method of a name. -/
def invocation (p : Program) (c : Chain) (name : String) (args : List Value)
    (destination : Option String) : Except RuntimeError Action :=
  match p.method? name with
  | none => .error (.unknownMethod name)
  | some method =>
    if method.params.length = args.length then do
      return .call method (← args.mapM c.get) destination
    else .error (.arityMismatch name method.params.length args.length)

/-- What an instruction is about to do. -/
def instruction (p : Program) (c : Chain) (op : Op) (args : List Value) :
    Except RuntimeError Action :=
  match op with
  | .print => do
    match ← Eval.operand op.text args 0 with
    | .str s => return .write s
    | v => return .write (toString (← c.get v).toInt)
  | .declare => do
    let name ← Eval.target op.text args
    return .update (c.declare name (← c.get (← Eval.operand op.text args 1)))
  | .giveBack =>
    match args with
    | [] => return .giveBack 0
    | v :: _ => return .giveBack (← c.get v)
  | .call => do
    c.invocation p (← Eval.methodName op.text args 0) (args.drop 1) none
  | .callInto => do
    let destination ← Eval.target op.text args
    c.invocation p (← Eval.methodName op.text args 1) (args.drop 2) (some destination)
  | op => .error (.unknownInstruction op.text)

/-- What a statement is about to do. -/
def action (p : Program) (c : Chain) : Statement → Except RuntimeError Action
  | .expression op args => c.instruction p op args
  | .block .assignment args body => do
    let name ← Eval.target BlockKind.assignment.text args
    return .update (← c.set name (← c.fold body))
  | .block .conditional args body => do
    let test ← c.get (← Eval.operand BlockKind.conditional.text args 0)
    match chosenBranch test body with
    | some statements => return .run statements
    | none => .error .malformedConditional
  | .block .loop args body => do
    return .loop (← Eval.operand BlockKind.loop.text args 0) body
  | .block kind _ _ => .error (.unknownInstruction kind.text)

/-- A call is of a method of the program. -/
theorem invocation_eq_ok {p : Program} {c : Chain} {name : String} {args : List Value}
    {destination : Option String} {a : Action} (h : c.invocation p name args destination = .ok a) :
    ∃ method values destination, a = .call method values destination ∧ method ∈ p.methods := by
  rw [invocation] at h
  split at h
  · cases h
  · next method hmethod =>
    split_ifs at h
    obtain ⟨values, -, h⟩ := bind_eq_ok h
    obtain rfl := Except.ok.inj h
    exact ⟨method, values, destination, rfl, List.mem_of_find?_eq_some hmethod⟩

/-- Nothing runs as a part of an instruction but a method of the program. -/
theorem task?_of_instruction {p : Program} {c : Chain} {op : Op} {args : List Value} {a : Action}
    (h : c.instruction p op args = .ok a) :
    a.task? = none ∨
      ∃ method values destination, a = .call method values destination ∧ method ∈ p.methods := by
  cases op with
  | print =>
    obtain ⟨v, -, h⟩ := bind_eq_ok h
    cases v with
    | str s =>
      obtain rfl := Except.ok.inj h
      exact .inl rfl
    | _ =>
      obtain ⟨n, -, h⟩ := bind_eq_ok h
      obtain rfl := Except.ok.inj h
      exact .inl rfl
  | declare =>
    obtain ⟨name, -, h⟩ := bind_eq_ok h
    obtain ⟨v, -, h⟩ := bind_eq_ok h
    obtain ⟨n, -, h⟩ := bind_eq_ok h
    obtain rfl := Except.ok.inj h
    exact .inl rfl
  | giveBack =>
    cases args with
    | nil =>
      obtain rfl := Except.ok.inj h
      exact .inl rfl
    | cons v rest =>
      obtain ⟨n, -, h⟩ := bind_eq_ok h
      obtain rfl := Except.ok.inj h
      exact .inl rfl
  | call =>
    obtain ⟨name, -, h⟩ := bind_eq_ok h
    exact .inr (invocation_eq_ok h)
  | callInto =>
    obtain ⟨destination, -, h⟩ := bind_eq_ok h
    obtain ⟨name, -, h⟩ := bind_eq_ok h
    exact .inr (invocation_eq_ok h)
  | _ => cases h

/-- An instruction owns no statements. -/
theorem nested_of_instruction {p : Program} {c : Chain} {op : Op} {args : List Value} {a : Action}
    (h : c.instruction p op args = .ok a) : a.nested = [] := by
  rcases task?_of_instruction h with hnone | ⟨method, values, destination, rfl, -⟩
  · cases a <;> first | rfl | cases hnone
  · rfl

/-- What runs as a part of a statement is smaller than the statement. -/
theorem sizeOf_nested {p : Program} {c : Chain} {s : Statement} {a : Action}
    (h : c.action p s = .ok a) : sizeOf a.nested < sizeOf s := by
  match s with
  | .expression op args =>
    rw [nested_of_instruction h]
    simp only [List.nil.sizeOf_spec, Statement.expression.sizeOf_spec]
    cases args with
    | nil =>
      rw [List.nil.sizeOf_spec]
      omega
    | cons arg args =>
      rw [List.cons.sizeOf_spec]
      omega
  | .block .assignment args body =>
    obtain ⟨name, -, h⟩ := bind_eq_ok h
    obtain ⟨n, -, h⟩ := bind_eq_ok h
    obtain ⟨c', -, h⟩ := bind_eq_ok h
    obtain rfl := Except.ok.inj h
    simp [Action.nested]
    omega
  | .block .conditional args body =>
    obtain ⟨v, -, h⟩ := bind_eq_ok h
    obtain ⟨test, -, h⟩ := bind_eq_ok h
    cases hchosen : chosenBranch test body with
    | none =>
      rw [hchosen] at h
      cases h
    | some statements =>
      rw [hchosen] at h
      obtain rfl := Except.ok.inj h
      have hlt := sizeOf_chosenBranch hchosen
      simp [Action.nested]
      omega
  | .block .loop args body =>
    obtain ⟨test, -, h⟩ := bind_eq_ok h
    obtain rfl := Except.ok.inj h
    simp only [Action.nested, Statement.block.sizeOf_spec]
    omega
  | .block .trueBranch args body => cases h
  | .block .falseBranch args body => cases h

/-- The chain after a call has given back a value. -/
def receive (c : Chain) (value : Int64) : Option String → Chain
  | none => c
  | some destination => c.assign destination value

end Chain

/-! ### Running -/

/-- How a task ends: as a list of statements does, or with an error. -/
abbrev Ending := Except RuntimeError Flow

/-- What a task changes: the variables in sight and the output. -/
structure World (σ : Type) where
  chain : Chain
  out : σ

/-- How a call ends when the body of the method ends so. -/
def Ending.ofBody : Ending → Ending
  | .ok flow => .ok (.giveBack flow.value)
  | .error e => .error e

/-- **The plain semantics.**  With `depth` calls active, of which there may be at
most `limit`, a task ends so and changes one world to another. -/
inductive Runs {σ : Type} [Sink σ] (p : Program) (limit : Nat) :
    Nat → Task → World σ → Ending → World σ → Prop
  -- a statement does what it is about to do
  | refuse {depth s c out e} (h : c.action p s = .error e) :
    Runs p limit depth (.statement s) ⟨c, out⟩ (.error e) ⟨c, out⟩
  | write {depth s c out out' line} (h : c.action p s = .ok (.write line))
    (hwrite : Sink.write out (line ++ "\n").toUTF8 = (none, out')) :
    Runs p limit depth (.statement s) ⟨c, out⟩ (.ok .next) ⟨c, out'⟩
  | failWrite {depth s c out out' line reason} (h : c.action p s = .ok (.write line))
    (hwrite : Sink.write out (line ++ "\n").toUTF8 = (some reason, out')) :
    Runs p limit depth (.statement s) ⟨c, out⟩ (.error (.io reason)) ⟨c, out'⟩
  | update {depth s c c' out} (h : c.action p s = .ok (.update c')) :
    Runs p limit depth (.statement s) ⟨c, out⟩ (.ok .next) ⟨c', out⟩
  | giveBack {depth s c out value} (h : c.action p s = .ok (.giveBack value)) :
    Runs p limit depth (.statement s) ⟨c, out⟩ (.ok (.giveBack value)) ⟨c, out⟩
  | receive {depth s c out method values destination value out'}
    (h : c.action p s = .ok (.call method values destination))
    (hcall : Runs p limit depth (.call method values) ⟨c, out⟩ (.ok (.giveBack value)) ⟨c, out'⟩) :
    Runs p limit depth (.statement s) ⟨c, out⟩ (.ok .next) ⟨c.receive value destination, out'⟩
  | failCall {depth s c out method values destination e out'}
    (h : c.action p s = .ok (.call method values destination))
    (hcall : Runs p limit depth (.call method values) ⟨c, out⟩ (.error e) ⟨c, out'⟩) :
    Runs p limit depth (.statement s) ⟨c, out⟩ (.error e) ⟨c, out'⟩
  | branch {depth s c out statements r w} (h : c.action p s = .ok (.run statements))
    (hbody : Runs p limit depth (.body statements) ⟨c, out⟩ r w) :
    Runs p limit depth (.statement s) ⟨c, out⟩ r w
  | loop {depth s c out test body r vars c' out'} (h : c.action p s = .ok (.loop test body))
    (hrounds : Runs p limit depth (.rounds test body) ⟨c.enter, out⟩ r ⟨.child vars c', out'⟩) :
    Runs p limit depth (.statement s) ⟨c, out⟩ r ⟨c', out'⟩
  -- statements run one after another, up to the first that does not fall through
  | nil {depth w} : Runs p limit depth (.body []) w (.ok .next) w
  | cons {depth s rest w w' r w''} (hfirst : Runs p limit depth (.statement s) w (.ok .next) w')
    (hrest : Runs p limit depth (.body rest) w' r w'') :
    Runs p limit depth (.body (s :: rest)) w r w''
  | stop {depth s rest w r w'} (hfirst : Runs p limit depth (.statement s) w r w')
    (hr : r ≠ .ok .next) : Runs p limit depth (.body (s :: rest)) w r w'
  -- a loop goes round as long as its test is not zero
  | failTest {depth test body c out e} (h : c.get test = .error e) :
    Runs p limit depth (.rounds test body) ⟨c, out⟩ (.error e) ⟨c, out⟩
  | last {depth test body c out} (h : c.get test = .ok 0) :
    Runs p limit depth (.rounds test body) ⟨c, out⟩ (.ok .next) ⟨c, out⟩
  | round {depth test body c out n w' r w''} (h : c.get test = .ok n) (hn : n ≠ 0)
    (hbody : Runs p limit depth (.body body) ⟨c, out⟩ (.ok .next) w')
    (hrounds : Runs p limit depth (.rounds test body) w' r w'') :
    Runs p limit depth (.rounds test body) ⟨c, out⟩ r w''
  | leave {depth test body c out n r w'} (h : c.get test = .ok n) (hn : n ≠ 0)
    (hbody : Runs p limit depth (.body body) ⟨c, out⟩ r w') (hr : r ≠ .ok .next) :
    Runs p limit depth (.rounds test body) ⟨c, out⟩ r w'
  -- a method runs on its parameters alone
  | tooDeep {depth method values w} (h : limit ≤ depth) :
    Runs p limit depth (.call method values) w (.error (.callDepthExceeded limit)) w
  | call {depth method values c out r c' out'} (h : depth < limit)
    (hbody : Runs p limit (depth + 1) (.body method.body)
      ⟨.root (Vars.ofParams method.params values), out⟩ r ⟨c', out'⟩) :
    Runs p limit depth (.call method values) ⟨c, out⟩ r.ofBody ⟨c, out'⟩

end Showtime
