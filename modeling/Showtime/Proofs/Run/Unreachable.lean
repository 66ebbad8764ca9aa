/-
# Code that is never reached

Nothing runs behind a return, and of several methods with one name only the
first is ever called.  So a program may have anything there, and runs alike.

A list of statements that has something else behind one of its returns
(`DiffersBehindReturn`) can stand where the other stood:

| where the list stands | why it makes no difference |
| --- | --- |
| the body of a method, of a branch or of a loop | the return ends it |
| the folds of an assignment | a return is an error there |
| the branches of a conditional | with a return among them they are no branches |

Two programs whose methods agree up to that do the same with every fuel
(`Interpreter.run_congr`), so they stop alike, with the same result and the same
output (`unreachable_code_is_inert`).
-/

import Mathlib.Logic.Relation
import Showtime.Proofs.Run.Fuel

namespace Showtime

open Eval

/-! ### Behind a return -/

/-- Two lists of statements that differ behind one return only, which stands in
the lists themselves or in a block, at any depth. -/
inductive DiffersBehindReturn : List Statement → List Statement → Prop
  | here (args : List Value) (rest rest' : List Statement) :
    DiffersBehindReturn (.expression .giveBack args :: rest) (.expression .giveBack args :: rest')
  | inside (kind : BlockKind) (args : List Value) {body body' : List Statement}
    (after : List Statement) (h : DiffersBehindReturn body body') :
    DiffersBehindReturn (.block kind args body :: after) (.block kind args body' :: after)
  | later (s : Statement) {rest rest' : List Statement} (h : DiffersBehindReturn rest rest') :
    DiffersBehindReturn (s :: rest) (s :: rest')

/-- The same statements, or statements that differ behind a return. -/
def SameReached (statements statements' : List Statement) : Prop :=
  statements = statements' ∨ DiffersBehindReturn statements statements'

/-- What a conditional runs when its test is zero, by what follows its true
branch: the statements of the false branch, or none if there is no such branch. -/
def falseBranch? : List Statement → Option (List Statement)
  | [] => some []
  | [.block .falseBranch _ else_] => some else_
  | _ => none

/-- A conditional is a true branch, and what follows it. -/
theorem chosenBranch_cons (test : Int64) (s : Statement) (rest : List Statement) :
    chosenBranch test (s :: rest) =
      match s with
      | .block .trueBranch _ then_ =>
        (falseBranch? rest).map fun else_ => if test = 0 then else_ else then_
      | _ => none := by
  unfold chosenBranch
  split
  · next heq =>
    obtain ⟨rfl, rfl⟩ := List.cons.inj heq
    rfl
  · next heq =>
    obtain ⟨rfl, rfl⟩ := List.cons.inj heq
    rfl
  · next h₁ h₂ =>
    split
    · next args then_ =>
      rw [falseBranch?]
      · rfl
      · rintro rfl
        exact h₁ _ _ rfl
      · rintro _ _ rfl
        exact h₂ _ _ _ _ rfl
    · rfl

namespace DiffersBehindReturn

variable {statements statements' : List Statement}

/-- A fold ends at a return, with an error. -/
theorem foldFrom_eq (h : DiffersBehindReturn statements statements') (scopes : ScopeStack)
    (scope : ScopeRef) (acc : Int64) :
    foldFrom scopes scope acc statements = foldFrom scopes scope acc statements' := by
  induction h generalizing acc with
  | here args rest rest' => rfl
  | inside kind args after h ih => rfl
  | later s h ih =>
    cases s with
    | expression op args => simp only [foldFrom, ih]
    | block kind args body => rfl

/-- A fold gives the same value or the same error, whatever stands behind a return. -/
theorem fold_eq (h : DiffersBehindReturn statements statements') (scopes : ScopeStack)
    (scope : ScopeRef) : fold scopes scope statements = fold scopes scope statements' := by
  cases h with
  | here args rest rest' => rfl
  | inside kind args after h => rfl
  | later s h =>
    cases s with
    | block kind args body => rfl
    | expression op args =>
      cases op with
      | firstOperand => simp only [fold, h.foldFrom_eq]
      | _ => rfl

/-- The second branch is the same up to what is never reached. -/
theorem falseBranch?_rel (h : DiffersBehindReturn statements statements') :
    Option.Rel SameReached (falseBranch? statements) (falseBranch? statements') := by
  cases h with
  | here args rest rest' => exact .none
  | inside kind args after h =>
    cases after with
    | nil =>
      cases kind with
      | falseBranch => exact .some (.inr h)
      | _ => exact .none
    | cons s rest =>
      simp only [falseBranch?]
      exact .none
  | later s h =>
    -- something follows the first statement, so there is more than one branch
    cases h <;> simp only [falseBranch?] <;> exact .none

/-- **A conditional chooses alike.**  A return among the branches themselves
leaves nothing to choose. -/
theorem chosenBranch_rel (h : DiffersBehindReturn statements statements') (test : Int64) :
    Option.Rel SameReached (chosenBranch test statements) (chosenBranch test statements') := by
  cases h with
  | here args rest rest' =>
    rw [chosenBranch_cons, chosenBranch_cons]
    exact .none
  | inside kind args after h =>
    rw [chosenBranch_cons, chosenBranch_cons]
    cases kind with
    | trueBranch =>
      cases falseBranch? after with
      | none => exact .none
      | some else_ =>
        refine .some ?_
        split_ifs
        · exact .inl rfl
        · exact .inr h
    | _ => exact .none
  | @later s rest rest' h =>
    -- the difference is in the second branch, or there is no choice at all
    have hrel := h.falseBranch?_rel
    rw [chosenBranch_cons, chosenBranch_cons]
    generalize falseBranch? rest = x at hrel ⊢
    generalize falseBranch? rest' = x' at hrel ⊢
    split
    · cases hrel with
      | none => exact .none
      | some helse =>
        refine .some ?_
        split_ifs
        · exact helse
        · exact .inl rfl
    · exact .none

end DiffersBehindReturn

namespace Eval

variable {σ : Type} [Sink σ] {p q : Program} {invoke invoke' : Invoke σ}

/-- A return ends its list, with a value or with an error. -/
theorem runStatement_giveBack (p : Program) (invoke : Invoke σ) (fuel : Nat) (scope : ScopeRef)
    (args : List Value) (m : Machine σ) : ∃ r, r ≠ .ok .next ∧
      runStatement p invoke fuel scope (.expression .giveBack args) m = .finished r m := by
  rw [runStatement]
  cases args with
  | nil => exact ⟨.ok (.giveBack 0), nofun, rfl⟩
  | cons v rest =>
    cases hv : m.scopes.get scope v with
    | ok n =>
      refine ⟨.ok (.giveBack n), nofun, ?_⟩
      exact Exec.bind_done (by rw [Exec.resolve, hv])
    | error e =>
      refine ⟨.error e, nofun, ?_⟩
      exact Exec.bind_failed (by rw [Exec.resolve, hv])

mutual

/-- A block runs alike, whatever stands behind a return in its body. -/
theorem runBlock_eq_of_differs {body body' : List Statement} (h : DiffersBehindReturn body body')
    (fuel : Nat) (scope : ScopeRef) (kind : BlockKind) (args : List Value) :
    runStatement p invoke fuel scope (.block kind args body) =
      runStatement p invoke fuel scope (.block kind args body') := by
  cases kind with
  | assignment => simp only [runStatement, runAssignment, h.fold_eq]
  | conditional =>
    rw [runStatement_conditional, runStatement_conditional]
    congr 1
    funext v
    congr 1
    funext test
    have hrel := h.chosenBranch_rel test
    generalize hchosen : chosenBranch test body = x at hrel ⊢
    generalize chosenBranch test body' = x' at hrel ⊢
    cases hrel with
    | none => rfl
    | some hsame =>
      have hlt := sizeOf_chosenBranch hchosen
      rcases hsame with rfl | hdiffers
      · rfl
      · exact runStatements_eq_of_differs hdiffers fuel scope
  | loop =>
    simp only [runStatement]
    congr 1
    funext test
    congr 1
    funext child
    rw [runStatements_eq_of_differs h fuel child]
  | trueBranch => rw [runStatement_misplaced (.inl rfl), runStatement_misplaced (.inl rfl)]
  | falseBranch => rw [runStatement_misplaced (.inr rfl), runStatement_misplaced (.inr rfl)]
termination_by (sizeOf body, 1)

/-- **Nothing runs behind a return.** -/
theorem runStatements_eq_of_differs {statements statements' : List Statement}
    (h : DiffersBehindReturn statements statements') (fuel : Nat) (scope : ScopeRef) :
    runStatements p invoke fuel scope statements =
      runStatements p invoke fuel scope statements' := by
  cases h with
  | here args rest rest' =>
    funext m
    obtain ⟨r, hr, hrun⟩ := runStatement_giveBack p invoke fuel scope args m
    rw [runStatements_cons, runStatements_cons, Exec.andThen_stop hrun hr,
      Exec.andThen_stop hrun hr]
  | inside kind args after h =>
    rw [runStatements_cons, runStatements_cons, runBlock_eq_of_differs h]
  | later s h => rw [runStatements_cons, runStatements_cons, runStatements_eq_of_differs h]
termination_by (sizeOf statements, 0)

end

/-- Statements that are the same up to what is never reached run alike. -/
theorem runStatements_congr_body {statements statements' : List Statement}
    (h : SameReached statements statements') (fuel : Nat) (scope : ScopeRef) :
    runStatements p invoke fuel scope statements =
      runStatements p invoke fuel scope statements' := by
  rcases h with rfl | h
  · rfl
  · exact runStatements_eq_of_differs h fuel scope

/-! ### Two programs -/

/-- Statements see the rest of a program by its calls only. -/
theorem runInstruction_congr
    (hcall : ∀ name args scope, call p invoke name args scope = call q invoke' name args scope)
    (op : Op) (args : List Value) (scope : ScopeRef) :
    runInstruction p invoke op args scope = runInstruction q invoke' op args scope := by
  cases op with
  | call => simp only [runInstruction, hcall]
  | callInto => simp only [runInstruction, hcall]
  | _ => rfl

mutual

/-- A statement runs alike where calls do. -/
theorem runStatement_congr
    (hcall : ∀ name args scope, call p invoke name args scope = call q invoke' name args scope)
    (fuel : Nat) (scope : ScopeRef) (s : Statement) :
    runStatement p invoke fuel scope s = runStatement q invoke' fuel scope s := by
  match s with
  | .expression op args =>
    rw [runStatement, runStatement]
    exact runInstruction_congr hcall op args scope
  | .block .assignment args body => rw [runStatement, runStatement]
  | .block .conditional args body =>
    rw [runStatement_conditional, runStatement_conditional]
    congr 1
    funext v
    congr 1
    funext test
    split
    · next statements hchosen =>
      have hlt := sizeOf_chosenBranch hchosen
      exact runStatements_congr hcall fuel scope statements
    · rfl
  | .block .loop args body =>
    rw [runStatement, runStatement]
    congr 1
    funext test
    congr 1
    funext child
    rw [runStatements_congr hcall fuel child body]
  | .block .trueBranch args body =>
    rw [runStatement_misplaced (.inl rfl), runStatement_misplaced (.inl rfl)]
  | .block .falseBranch args body =>
    rw [runStatement_misplaced (.inr rfl), runStatement_misplaced (.inr rfl)]
termination_by sizeOf s
decreasing_by all_goals simp only [Statement.block.sizeOf_spec]; omega

/-- A list of statements runs alike where calls do. -/
theorem runStatements_congr
    (hcall : ∀ name args scope, call p invoke name args scope = call q invoke' name args scope)
    (fuel : Nat) (scope : ScopeRef) (statements : List Statement) :
    runStatements p invoke fuel scope statements =
      runStatements q invoke' fuel scope statements := by
  match statements with
  | [] => rw [runStatements, runStatements]
  | s :: rest =>
    rw [runStatements_cons, runStatements_cons, runStatement_congr hcall fuel scope s,
      runStatements_congr hcall fuel scope rest]
termination_by sizeOf statements

end

end Eval

/-- Methods with the same parameters and, up to what is never reached, the same
body. -/
structure Method.SameReached (m m' : Method) : Prop where
  params : m.params = m'.params
  body : Showtime.SameReached m.body m'.body

/-- Equal methods are the same up to what is never reached. -/
theorem Method.sameReached_of_eq {x x' : Option Method} (h : x = x') :
    Option.Rel Method.SameReached x x' := by
  subst h
  cases x with
  | none => exact .none
  | some m => exact .some ⟨rfl, .inl rfl⟩

/-- Programs whose entry methods, and whose methods of every name, are the same up
to what is never reached. -/
structure Program.SameReached (p q : Program) : Prop where
  main : Showtime.SameReached p.main.body q.main.body
  method? : ∀ name, Option.Rel Method.SameReached (p.method? name) (q.method? name)

namespace Eval

variable {σ : Type} {p q : Program} {invoke invoke' : Invoke σ}

/-- A call runs alike in programs that are the same up to what is never reached. -/
theorem call_congr (h : p.SameReached q)
    (hinvoke : ∀ {m m'}, m.SameReached m' → ∀ values, invoke m values = invoke' m' values)
    (name : String) (args : List Value) (scope : ScopeRef) :
    call p invoke name args scope = call q invoke' name args scope := by
  have hrel := h.method? name
  funext m
  simp only [call, prepare]
  generalize p.method? name = x at hrel
  generalize q.method? name = x' at hrel
  cases hrel with
  | none => rfl
  | @some method method' hsame =>
    simp only [hsame.params]
    split_ifs
    · cases resolveAll m.scopes scope args with
      | error e => rfl
      | ok values => exact congrFun (hinvoke hsame values) m
    · rfl

/-- **Calls do the same**, with every fuel. -/
theorem runMethod_congr [Sink σ] (h : p.SameReached q) (limit fuel : Nat) {m m' : Method}
    (hm : m.SameReached m') (values : List Int64) :
    runMethod (σ := σ) p limit fuel m values = runMethod q limit fuel m' values := by
  induction fuel generalizing m m' values with
  | zero => rfl
  | succ fuel ih =>
    have hbody (scope : ScopeRef) :
        runStatements (σ := σ) p (runMethod p limit fuel) fuel scope m.body =
          runStatements q (runMethod q limit fuel) fuel scope m'.body := calc
      _ = runStatements q (runMethod q limit fuel) fuel scope m.body :=
        runStatements_congr (call_congr h ih) fuel scope m.body
      _ = _ := runStatements_congr_body hm.body fuel scope
    funext machine
    simp only [runMethod, hbody, hm.params]

end Eval

namespace Interpreter

variable {σ τ : Type} [Sink σ] [Sink τ] {p q : Program}

/-- The entry method runs alike in programs that are the same up to what is never
reached. -/
theorem runEntry_congr (h : p.SameReached q) (limit fuel : Nat) :
    runEntry (σ := σ) { program := p, limit } fuel = runEntry { program := q, limit } fuel := by
  have hbody (root : ScopeRef) :
      runStatements (σ := σ) p (runMethod p limit fuel) fuel root p.main.body =
        runStatements q (runMethod q limit fuel) fuel root q.main.body := calc
    _ = runStatements q (runMethod q limit fuel) fuel root p.main.body :=
      runStatements_congr (call_congr h fun hm => runMethod_congr h limit fuel hm) fuel root _
    _ = _ := runStatements_congr_body h.main fuel root
  simp only [runEntry, hbody]

/-- **Programs that are the same up to what is never reached run alike.** -/
theorem run_congr (h : p.SameReached q) (limit fuel : Nat) (i : Interpreter σ τ) :
    i.run { program := p, limit } fuel = i.run { program := q, limit } fuel := by
  simp only [run, runEntry_congr h]

end Interpreter

/-! ### Changes of a program -/

/-- One change of code that is never reached: what follows a return, in the entry
method or in another one, or a method that comes after one of its name. -/
inductive Program.ChangesUnreached : Program → Program → Prop
  | main (m : Method) (methods : List Method) {body' : List Statement}
    (h : DiffersBehindReturn m.body body') :
    ChangesUnreached ⟨m, methods⟩ ⟨{ m with body := body' }, methods⟩
  | method (main : Method) (before : List Method) (m : Method) (after : List Method)
    {body' : List Statement} (h : DiffersBehindReturn m.body body') :
    ChangesUnreached ⟨main, before ++ m :: after⟩
      ⟨main, before ++ { m with body := body' } :: after⟩
  | removed (main : Method) (before : List Method) (m : Method) (after : List Method)
    (h : ∃ earlier ∈ before, earlier.name = m.name) :
    ChangesUnreached ⟨main, before ++ m :: after⟩ ⟨main, before ++ after⟩
  | added (main : Method) (before : List Method) (m : Method) (after : List Method)
    (h : ∃ earlier ∈ before, earlier.name = m.name) :
    ChangesUnreached ⟨main, before ++ after⟩ ⟨main, before ++ m :: after⟩
  | changed (main : Method) (before : List Method) (m m' : Method) (after : List Method)
    (h : ∃ earlier ∈ before, earlier.name = m.name)
    (h' : ∃ earlier ∈ before, earlier.name = m'.name) :
    ChangesUnreached ⟨main, before ++ m :: after⟩ ⟨main, before ++ m' :: after⟩

/-- A method that comes after one of its name is not found. -/
theorem method?_of_shadowed (main : Method) {before : List Method} {m : Method}
    (after : List Method) (h : ∃ earlier ∈ before, earlier.name = m.name) (name : String) :
    Program.method? ⟨main, before ++ m :: after⟩ name =
      Program.method? ⟨main, before ++ after⟩ name := by
  obtain ⟨earlier, hmem, hname⟩ := h
  simp only [Program.method?, List.find?_append, List.find?_cons]
  cases hm : m.name == name with
  | false => rfl
  | true =>
    have hfound : (before.find? (·.name == name)).isSome := by
      rw [List.find?_isSome]
      exact ⟨earlier, hmem, hname ▸ hm⟩
    obtain ⟨found, hfound⟩ := Option.isSome_iff_exists.1 hfound
    rw [hfound, Option.some_or, Option.some_or]

/-- A method is found with the body that it has. -/
theorem method?_rel_of_differs (main : Method) (before : List Method) {m m' : Method}
    (after : List Method) (hname : m.name = m'.name) (hsame : m.SameReached m') (name : String) :
    Option.Rel Method.SameReached (Program.method? ⟨main, before ++ m :: after⟩ name)
      (Program.method? ⟨main, before ++ m' :: after⟩ name) := by
  simp only [Program.method?, List.find?_append, List.find?_cons, hname]
  cases before.find? (·.name == name) with
  | some found => exact Method.sameReached_of_eq rfl
  | none =>
    cases m'.name == name with
    | true => exact .some hsame
    | false => exact Method.sameReached_of_eq rfl

/-- **A change of what is never reached keeps all that is.** -/
theorem Program.ChangesUnreached.sameReached {p q : Program} (h : p.ChangesUnreached q) :
    p.SameReached q := by
  cases h with
  | main m methods h => exact ⟨.inr h, fun name => Method.sameReached_of_eq rfl⟩
  | method main before m after h =>
    exact ⟨.inl rfl, method?_rel_of_differs main before after rfl ⟨rfl, .inr h⟩⟩
  | removed main before m after h =>
    exact ⟨.inl rfl, fun name => Method.sameReached_of_eq (method?_of_shadowed main after h name)⟩
  | added main before m after h =>
    exact ⟨.inl rfl, fun name =>
      Method.sameReached_of_eq (method?_of_shadowed main after h name).symm⟩
  | changed main before m m' after h h' =>
    refine ⟨.inl rfl, fun name => Method.sameReached_of_eq ?_⟩
    rw [method?_of_shadowed main after h name, method?_of_shadowed main after h' name]

/-- **Code that is never reached is inert.**  Change a program in any number of
places: what follows a return, in any list of statements at any depth, and the
methods that come after one of their name, which may be removed, added or changed
into others that come after one of their name.  Whatever the limit, the fuel, the
sinks and what the interpreter did before, a run of the one program is a run of
the other: it ends if the other does, with the same result, and leaves both sinks
alike. -/
theorem unreachable_code_is_inert {σ τ : Type} [Sink σ] [Sink τ] {p q : Program}
    (h : Relation.ReflTransGen Program.ChangesUnreached p q) (limit fuel : Nat)
    (i : Interpreter σ τ) :
    i.run { program := p, limit } fuel = i.run { program := q, limit } fuel := by
  induction h with
  | refl => rfl
  | tail _ hlast ih => exact ih.trans (Interpreter.run_congr hlast.sameReached limit fuel i)

/-- Greets and returns out of a loop, with something behind the return and further
methods behind the one that greets. -/
def greeting (rest : List Statement) (more : List Method) : Program where
  main := .main
    [.expression .declare [.var "n", .int 1],
      .block .loop [.var "n"]
        (.expression .call [.var "greet"] :: .expression .giveBack [] :: rest)]
  methods := { name := "greet", params := [], body := [.expression .print [.str "hello"]] } :: more

/-- The greeting is the same with a misplaced branch and an unknown variable behind
the return, and with a second method that cannot be called without an argument. -/
theorem greeting_ignores_unreached :
    ∃ i : Interpreter Buffer Buffer,
      (Interpreter.fresh Buffer.unbounded Buffer.unbounded).run { program := greeting [] [] } 1 =
        some (.ok (), i) ∧
      i.machine.out.contents = "hello\n".toUTF8 ∧
      (Interpreter.fresh Buffer.unbounded Buffer.unbounded).run
          { program := greeting
              [.block .falseBranch [] [], .expression .print [.var "ghost"]]
              [{ name := "greet", params := ["name"], body := [] }] } 1 =
        some (.ok (), i) := by
  obtain ⟨i, hrun, hout⟩ : ∃ i : Interpreter Buffer Buffer,
      (Interpreter.fresh Buffer.unbounded Buffer.unbounded).run { program := greeting [] [] } 1 =
          some (.ok (), i) ∧ i.machine.out.contents = "hello\n".toUTF8 := ⟨_, rfl, by decide⟩
  have hreturn (rest : List Statement) : (greeting [] []).ChangesUnreached (greeting rest []) :=
    .main _ _ (.later _ (.inside _ _ _ (.later _ (.here [] [] rest))))
  have hmethod (rest : List Statement) (m : Method) (h : "greet" = m.name) :
      (greeting rest []).ChangesUnreached (greeting rest [m]) :=
    .added _ [_] m [] ⟨_, List.mem_singleton_self _, h⟩
  refine ⟨i, hrun, hout, ?_⟩
  rw [← unreachable_code_is_inert ((Relation.ReflTransGen.single (hreturn _)).tail
    (hmethod _ _ rfl))]
  exact hrun

end Showtime
