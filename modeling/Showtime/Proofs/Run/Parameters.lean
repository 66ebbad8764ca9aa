/-
# What a call passes on

A call reads its arguments in the scope of the caller, and the body of the method
starts in a scope of its own that binds the parameters to them, one by one.  Each
parameter has the value of its own argument only because no two parameters have the
same name, which is what the parser sees to.

| what | from | to |
| --- | --- | --- |
| arguments | the scope of the caller | the parameters, in order |
| value of a return | the body | the call |
| 0 | a body that falls through | the call |
| value of the call | the call | the destination, if there is one |

A destination gets the value whether it was in sight or not, and every other
variable is as before: the body has not seen the variables of the caller.
-/

import Showtime.Proofs.Parser.Acceptance
import Showtime.Proofs.Run.Frame

namespace Showtime

open Eval

/-! ### Arguments -/

/-- Arguments have values one by one. -/
theorem Eval.resolveAll_eq_ok {st : ScopeStack} {ref : ScopeRef} {args : List Value}
    {values : List Int64} (h : resolveAll st ref args = .ok values) :
    List.Forall₂ (fun arg value => st.get ref arg = .ok value) args values := by
  induction args generalizing values with
  | nil =>
    obtain rfl := Except.ok.inj h
    exact .nil
  | cons arg args ih =>
    rw [resolveAll] at h
    split at h
    · cases h
    · next value hvalue =>
      split at h
      · cases h
      · next rest hrest =>
        obtain rfl := Except.ok.inj h
        exact .cons hvalue (ih hrest)

/-- The method that a call means is the first of its name. -/
theorem Program.method?_eq_some {p : Program} {name : String} {method : Method}
    (h : p.method? name = some method) :
    ∃ earlier later, p.methods = earlier ++ method :: later ∧ method.name = name ∧
      ∀ other ∈ earlier, other.name ≠ name := by
  obtain ⟨hname, earlier, later, hmethods, hearlier⟩ := List.find?_eq_some_iff_append.1 h
  exact ⟨earlier, later, hmethods, by simpa using hname, by simpa using hearlier⟩

/-- Two lists that go with a third go with each other. -/
theorem forall₂_of_common {α β γ : Type} {R : α → γ → Prop} {S : β → γ → Prop} {as : List α}
    {bs : List β} {cs : List γ} (h : List.Forall₂ R as cs) (h' : List.Forall₂ S bs cs) :
    List.Forall₂ (fun a b => ∃ c, S b c ∧ R a c) as bs := by
  induction h generalizing bs with
  | nil =>
    cases h'
    exact .nil
  | cons hr _ ih =>
    cases h' with
    | cons hs hrest => exact .cons ⟨_, hs, hr⟩ (ih hrest)

/-! ### The start of a call -/

/-- A call by name, made from a scope of a machine, has come to the body of the method. -/
structure Moment.StartsCall {σ : Type} (p : Program) (m : Machine σ) (ref : ScopeRef)
    (name : String) (args : List Value) (method : Method) (mo : Moment σ) : Prop where
  /-- The method is the first of its name. -/
  first : ∃ earlier later, p.methods = earlier ++ method :: later ∧ method.name = name ∧
    ∀ other ∈ earlier, other.name ≠ name
  body : mo.task = .body method.body
  arity : args.length = method.params.length
  /-- The parameters are in sight, and nothing else. -/
  names : ∀ x, (mo.machine.scopes.lookup mo.scope x).isSome ↔ x ∈ method.params
  /-- Each parameter has the value that the argument in its place has for the caller. -/
  values : List.Forall₂ (fun param arg => ∃ n, m.scopes.get ref arg = .ok n ∧
    mo.machine.scopes.lookup mo.scope param = some n) method.params args

/-- A call that is prepared comes to the body of its method with the parameters bound.
-/
theorem startsCall_callee {σ : Type} {p : Program} (hp : ∀ method ∈ p.methods, method.params.Nodup)
    {m : Machine σ} {ref : ScopeRef} {name : String} {args : List Value} {method : Method}
    {values : List Int64} (h : prepare p m.scopes ref name args = .ok (method, values))
    (calls : List Method) :
    Moment.StartsCall p m ref name args method
      ⟨calls, .body method.body, m.scopes.next, callee method values m⟩ := by
  obtain ⟨hmethod, harity, hvalues⟩ := prepare_eq_ok_iff.1 h
  have hnodup : method.params.Nodup := hp method (List.mem_of_find?_eq_some hmethod)
  have hargs := resolveAll_eq_ok hvalues
  have hlength : method.params.length = values.length := harity.trans hargs.length_eq
  have hlookup (x : String) : (callee method values m).scopes.lookup m.scopes.next x =
      (Vars.ofParams method.params values).lookup x := (shows_callee method values m).lookup x
  refine ⟨Program.method?_eq_some hmethod, rfl, harity.symm, fun x => ?_, ?_⟩
  · simp only [hlookup]
    rw [Finmap.lookup_isSome, Vars.mem_ofParams hlength]
  · simp only [hlookup]
    exact forall₂_of_common (Vars.lookup_ofParams hnodup hlength) hargs

/-! ### The end of a call -/

/-- Where one step and another give a value, both do. -/
theorem Exec.bind_eq_done {σ α β : Type} {x : Exec σ α} {f : α → Exec σ β} {m m' : Machine σ}
    {b : β} (h : (x >>= f) m = .done b m') :
    ∃ a m₁, x m = .done a m₁ ∧ f a m₁ = .done b m' := by
  cases hx : x m with
  | done a m₁ => exact ⟨a, m₁, rfl, (bind_done hx).symm.trans h⟩
  | failed e m₁ =>
    rw [bind_failed hx] at h
    cases h
  | exhausted =>
    rw [bind_exhausted hx] at h
    cases h

namespace Eval

variable {σ : Type} [Sink σ] {p : Program} {limit : Nat} {m m' : Machine σ}

/-- **A call gives back what the body returns, and 0 if it falls through.** -/
theorem runMethod_done_iff {method : Method} {values : List Int64} (h : m.depth < limit)
    (fuel : Nat) (value : Int64) :
    (∃ m', runMethod p limit (fuel + 1) method values m = .done value m') ↔
      (∃ m', runStatements p (runMethod p limit fuel) fuel m.scopes.next method.body
          (callee method values m) = .done (.giveBack value) m') ∨
        value = 0 ∧ ∃ m', runStatements p (runMethod p limit fuel) fuel m.scopes.next method.body
          (callee method values m) = .done .next m' := by
  rw [runMethod_succ fuel method values h]
  cases runStatements p (runMethod p limit fuel) fuel m.scopes.next method.body
    (callee method values m) with
  | done flow m₁ =>
    cases flow <;> simp [Outcome.map, Flow.value, eq_comm]
  | failed e m₁ => simp [Outcome.map]
  | exhausted => simp [Outcome.map]

/-- **A call without a destination is the run of the method, whose value is dropped.** -/
theorem runStatement_call_of_prepare {ref : ScopeRef} {name : String} {args : List Value}
    {method : Method} {values : List Int64}
    (hprepare : prepare p m.scopes ref name args = .ok (method, values)) (callFuel fuel : Nat) :
    runStatement p (runMethod p limit callFuel) fuel ref (.expression .call (.var name :: args)) m =
      (runMethod p limit callFuel method values m).map (fun _ => .next) id := by
  have hcall : call p (runMethod p limit callFuel) name args ref m =
      runMethod p limit callFuel method values m := call_of_prepare hprepare
  rw [runStatement_call]
  cases hmethod : runMethod p limit callFuel method values m with
  | done value m₁ => exact Exec.bind_done (hcall.trans hmethod)
  | failed e m₁ => exact Exec.bind_failed (hcall.trans hmethod)
  | exhausted => exact Exec.bind_exhausted (hcall.trans hmethod)

/-- **A call with a destination gives its value to the destination and to no other
variable.** -/
theorem lookup_of_callInto {ref : ScopeRef} {c : Chain} (hshows : m.scopes.Shows ref c)
    {destination name : String} {args : List Value} {method : Method} {values : List Int64}
    (hprepare : prepare p m.scopes ref name args = .ok (method, values)) {callFuel fuel : Nat}
    {flow : Flow}
    (h : runStatement p (runMethod p limit callFuel) fuel ref
      (.expression .callInto (.var destination :: .var name :: args)) m = .done flow m') :
    ∃ value m₁, runMethod p limit callFuel method values m = .done value m₁ ∧
      ∀ x, m'.scopes.lookup ref x =
        if x = destination then some value else m.scopes.lookup ref x := by
  rw [runStatement_callInto] at h
  obtain ⟨value, ⟨st, depth, out⟩, hcall, h⟩ := Exec.bind_eq_done h
  rw [call_of_prepare hprepare] at hcall
  refine ⟨value, _, hcall, fun x => ?_⟩
  -- the call has left the stack of the caller as it was
  obtain ⟨-, hst, -⟩ := runMethod_sound callFuel (r := .ok value) hcall
  obtain rfl : st = m.scopes := hst
  obtain ⟨st', hreceive, hshows', -⟩ := receive_done hshows value (some destination) depth out
  rw [Exec.bind_done hreceive] at h
  obtain ⟨-, rfl⟩ := Outcome.done.inj h
  rw [hshows'.lookup, hshows.lookup, Chain.receive, Chain.lookup_assign]

end Eval

/-- **Calls bind parameters faithfully.**  Take a program that was read from a source, any
state of a run of it, a scope that is there, and an instruction that gets to run the
body of a method: the call is `called`, and the body is about to start at `started`.

* The body is that of the first method of the name, there is an argument for each
  parameter, and what is in sight from the scope of the body are the parameters, each
  with the value that its argument has in the scope of the caller.
* The call gives back what the body returns, and 0 if the body falls through.
* A call without a destination is this call of the method, and drops its value.
* When a call with a destination has succeeded, the destination has the value of the
  call, seen from the scope of the caller, and all other names mean what they meant. -/
theorem calls_bind_parameters {σ : Type} [Sink σ] {source : String} {p : Program}
    (hp : Program.parse source = .ok p) (limit : Nat) {m : Machine σ} (hm : m.Reachable p limit)
    (ref : ScopeRef) (hlive : ref.index < m.scopes.size) (op : Op) (args : List Value)
    (calls : List Method) {called started : Moment σ}
    (hcalled : Moment.Leads p limit ⟨calls, .statement (.expression op args), ref, m⟩ called)
    (hstarted : Moment.Leads p limit called started) :
    ∃ name arguments method values,
      (Statement.expression op args).Calls name arguments ∧ called.task = .call method values ∧
      started.StartsCall p m ref name arguments method ∧
      (∀ fuel value, (∃ m', runMethod p limit (fuel + 1) method values m = .done value m') ↔
        (∃ m', runStatements p (runMethod p limit fuel) fuel started.scope method.body
            started.machine = .done (.giveBack value) m') ∨
          value = 0 ∧ ∃ m', runStatements p (runMethod p limit fuel) fuel started.scope method.body
            started.machine = .done .next m') ∧
      (op = .call → ∀ callFuel fuel,
        runStatement p (runMethod p limit callFuel) fuel ref (.expression op args) m =
          (runMethod p limit callFuel method values m).map (fun _ => .next) id) ∧
      ∀ destination rest, op = .callInto → args = .var destination :: rest →
        ∀ callFuel fuel flow m', runStatement p (runMethod p limit callFuel) fuel ref
            (.expression op args) m = .done flow m' →
          ∃ value m₁, runMethod p limit callFuel method values m = .done value m₁ ∧
            m'.scopes.lookup ref destination = some value ∧
            ∀ other, other ≠ destination →
              m'.scopes.lookup ref other = m.scopes.lookup ref other := by
  obtain ⟨-, -, -, hnodup⟩ := Program.parse_eq_ok_iff.1 hp
  obtain ⟨c, hshows⟩ := hm.linked.exists_shows hlive
  cases hcalled with
  | @attempt _ _ name arguments _ _ method values hcalls hprepare =>
    cases hstarted with
    | enter hdepth =>
      refine ⟨name, arguments, method, values, hcalls, rfl, startsCall_callee hnodup hprepare _,
        fun fuel value => runMethod_done_iff hdepth fuel value, ?_, ?_⟩
      · rintro rfl callFuel fuel
        cases hcalls with
        | call name arguments => exact runStatement_call_of_prepare hprepare callFuel fuel
      rintro destination rest rfl rfl callFuel fuel flow m' h
      cases hcalls with
      | callInto destination name arguments =>
        obtain ⟨value, m₁, hcall, hlookup⟩ := lookup_of_callInto hshows hprepare h
        refine ⟨value, m₁, hcall, ?_, fun other hne => ?_⟩
        · rw [hlookup, if_pos rfl]
        · rw [hlookup, if_neg hne]

/-- A source in which a call has a variable for its argument that shares its name with
the second parameter, line by line. -/
def Program.lastLines : List String :=
  ["IT'S SHOWTIME", "HEY CHRISTMAS TREE b", "YOU SET US UP 5", "GET YOUR ASS TO MARS a last b 3",
    "YOU HAVE BEEN TERMINATED", "LISTEN TO ME VERY CAREFULLY last",
    "I NEED YOUR CLOTHES YOUR BOOTS AND YOUR MOTORCYCLE a",
    "I NEED YOUR CLOTHES YOUR BOOTS AND YOUR MOTORCYCLE b", "I'LL BE BACK b",
    "HASTA LA VISTA, BABY"]

/-- The lines as one text. -/
def Program.lastSource : String :=
  String.ofList (lastLines.flatMap fun line => line.toList ++ ['\n'])

/-- The method that it calls. -/
def Method.last : Method where
  name := "last"
  params := ["a", "b"]
  body := [.expression .giveBack [.var "b"]]

/-- The program of the source. -/
def Program.last : Program where
  main := .main [.expression .declare [.var "b", .int 5],
    .expression .callInto [.var "a", .var "last", .var "b", .int 3]]
  methods := [.last]

/-- The method gets 5 and 3 in the order of the call.  The caller, who has no `a` before,
has 3 for its own `a` afterwards, and its own `b` is as it was. -/
theorem last_binds_parameters :
    let m : Machine Buffer := { scopes := ⟨#[{ parent := none, vars := [("b", 5)] }]⟩
                                depth := 0, out := .unbounded }
    let s : Statement := .expression .callInto [.var "a", .var "last", .var "b", .int 3]
    Program.parse Program.lastSource = .ok .last ∧ m.Reachable .last 1 ∧
      ∃ called started, Moment.Leads .last 1 ⟨[], .statement s, ⟨0⟩, m⟩ called ∧
        Moment.Leads .last 1 called started ∧
        started.StartsCall .last m ⟨0⟩ "last" [.var "b", .int 3] .last ∧
        ∃ m', runStatement .last (runMethod .last 1 1) 0 ⟨0⟩ s m = .done .next m' ∧
          m'.scopes.lookup ⟨0⟩ "a" = some 3 ∧ m'.scopes.lookup ⟨0⟩ "b" = some 5 := by
  intro m s
  have hp : Program.parse Program.lastSource = .ok .last := by
    rw [Program.parse, Program.read, Lexer.ofSource, Program.lastSource, String.toList_ofList]
    decide +kernel
  have hm : m.Reachable .last 1 := by
    have hb : perform .last 1 0 ⟨0⟩ (.statement (.expression .declare [.var "b", .int 5]))
        (Moment.start .last Buffer.unbounded).machine = .done .next m := rfl
    exact ⟨_, _, .tail .refl (.rest hb), .inl rfl⟩
  have hcalled : Moment.Leads .last 1 ⟨[], .statement s, ⟨0⟩, m⟩
      ⟨[], .call .last [5, 3], ⟨0⟩, m⟩ := .attempt (.callInto _ _ _) rfl
  have hstarted : Moment.Leads .last 1 ⟨[], .call .last [5, 3], ⟨0⟩, m⟩
      ⟨[.last], .body Method.last.body, m.scopes.next, callee .last [5, 3] m⟩ := .enter Nat.one_pos
  obtain ⟨name, arguments, method, values, hcalls, htask, hstarts, -, -, hdestination⟩ :=
    calls_bind_parameters hp 1 hm ⟨0⟩ Nat.one_pos _ _ [] hcalled hstarted
  cases hcalls
  cases htask
  have hvalue : runMethod .last 1 1 .last [5, 3] m = .done 3 m := rfl
  obtain ⟨value, m₁, hcall, ha, hother⟩ := hdestination "a" _ rfl rfl 1 0 .next _ rfl
  obtain ⟨rfl, -⟩ := Outcome.done.inj (hvalue.symm.trans hcall)
  exact ⟨hp, hm, _, _, hcalled, hstarted, hstarts, _, rfl, ha, hother "b" (by decide)⟩

end Showtime
