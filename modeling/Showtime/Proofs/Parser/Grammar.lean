/-
# The grammar

Which token lists are programs, and of which.  For every nonterminal there is a
relation between a list of tokens and the value that its production builds.

| nonterminal | production |
| --- | --- |
| `Program` | `MainMethod` `MethodDef`* |
| `MainMethod` | IT'S SHOWTIME `Statement`* YOU HAVE BEEN TERMINATED |
| `MethodDef` | LISTEN TO ME VERY CAREFULLY name `Params` `Statement`* HASTA LA VISTA, BABY |
| `Params` | nothing, `Param`+ GIVE THESE PEOPLE AIR?, or GIVE THESE PEOPLE AIR |
| `Statement` | one of eight forms, see there |
| `Fold` | `FoldOp` `Operand` |
| `Printable` | string or `Operand` |
| `Operand` | integer, truth value or variable |
| `Literal` | integer or truth value |

That the parameters of a method are distinct is no matter of the grammar.
-/

import Showtime.Parser.Parse

namespace Showtime
namespace Grammar

/-! ### Repetition -/

/-- Any number of times. -/
inductive Star {α : Type} (R : List Token → α → Prop) : List Token → List α → Prop
  | nil : Star R [] []
  | cons {ts us a as} (head : R ts a) (tail : Star R us as) : Star R (ts ++ us) (a :: as)

/-- At least once. -/
inductive Plus {α : Type} (R : List Token → α → Prop) : List Token → List α → Prop
  | cons {ts us a as} (head : R ts a) (tail : Star R us as) : Plus R (ts ++ us) (a :: as)

/-! ### Operands -/

/-- An integer or a truth value, which stands for 1 or 0. -/
inductive Literal : List Token → Value → Prop
  | int (n : Int64) : Literal [.int n] (.int n)
  | truth (b : Bool) : Literal [.truth b] (.ofBool b)

/-- A literal or a variable. -/
inductive Operand : List Token → Value → Prop
  | int (n : Int64) : Operand [.int n] (.int n)
  | truth (b : Bool) : Operand [.truth b] (.ofBool b)
  | var (name : String) : Operand [.var name] (.var name)

/-- What can be printed: a string or an operand. -/
inductive Printable : List Token → Value → Prop
  | str (s : String) : Printable [.str s] (.str s)
  | operand {ts v} (h : Operand ts v) : Printable ts v

/-! ### Statements -/

/-- The eight phrases of an operator. -/
inductive FoldOp : List Token → Op → Prop
  | add : FoldOp [.phrase .add] .add
  | subtract : FoldOp [.phrase .subtract] .subtract
  | multiply : FoldOp [.phrase .multiply] .multiply
  | divide : FoldOp [.phrase .divide] .divide
  | equalTo : FoldOp [.phrase .equalTo] .equalTo
  | greaterThan : FoldOp [.phrase .greaterThan] .greaterThan
  | or : FoldOp [.phrase .or] .or
  | and : FoldOp [.phrase .and] .and

/-- One step of an assignment: an operator and its operand. -/
inductive Fold : List Token → Showtime.Statement → Prop
  | mk {ts us op v} (hop : FoldOp ts op) (hoperand : Operand us v) :
    Fold (ts ++ us) (.expression op [v])

/-- The eight forms of a statement.  Where a production has an optional part,
there are two rules. -/
inductive Statement : List Token → Showtime.Statement → Prop
  | print {ts v} (hvalue : Printable ts v) :
    Statement (.phrase .print :: ts) (.expression .print [v])
  | declare {name ts v} (hinit : Literal ts v) :
    Statement (.phrase .declare :: .var name :: .phrase .initialValue :: ts)
      (.expression .declare [.var name, v])
  | assignment {target ts seed us folds} (hseed : Operand ts seed) (hfolds : Star Fold us folds) :
    Statement
      (.phrase .assign :: .var target :: .phrase .firstOperand ::
        (ts ++ us ++ [.phrase .assignEnd]))
      (.block .assignment [.var target] (.expression .firstOperand [seed] :: folds))
  | conditional {ts test us then_} (htest : Operand ts test) (hthen : Star Statement us then_) :
    Statement (.phrase .branch :: (ts ++ us ++ [.phrase .branchEnd]))
      (.block .conditional [test] [.block .trueBranch [] then_])
  | conditionalElse {ts test us then_ vs else_} (htest : Operand ts test)
    (hthen : Star Statement us then_) (helse : Star Statement vs else_) :
    Statement
      (.phrase .branch :: (ts ++ us ++ .phrase .otherwise :: (vs ++ [.phrase .branchEnd])))
      (.block .conditional [test] [.block .trueBranch [] then_, .block .falseBranch [] else_])
  | loop {ts test us body} (htest : Operand ts test) (hbody : Star Statement us body) :
    Statement (.phrase .loop :: (ts ++ us ++ [.phrase .loopEnd])) (.block .loop [test] body)
  | call {name ts args} (hargs : Star Operand ts args) :
    Statement (.phrase .call :: .var name :: ts) (.expression .call (.var name :: args))
  | callInto {dest name ts args} (hargs : Star Operand ts args) :
    Statement (.phrase .callInto :: .var dest :: .var name :: ts)
      (.expression .callInto (.var dest :: .var name :: args))
  | callIntoCall {dest name ts args} (hargs : Star Operand ts args) :
    Statement (.phrase .callInto :: .var dest :: .phrase .call :: .var name :: ts)
      (.expression .callInto (.var dest :: .var name :: args))
  | giveBack : Statement [.phrase .giveBack] (.expression .giveBack [])
  | giveBackValue {ts v} (hvalue : Operand ts v) :
    Statement (.phrase .giveBack :: ts) (.expression .giveBack [v])

/-! ### Methods -/

/-- A parameter of a method. -/
inductive Param : List Token → String → Prop
  | mk (name : String) : Param [.phrase .parameter, .var name] name

/-- The header of a method behind its name.  The phrase at its end can be left out, and
it can stand alone. -/
inductive Params : List Token → List String → Prop
  | none : Params [] []
  | some {ts names} (h : Plus Param ts names) : Params ts names
  | closed {ts names} (h : Plus Param ts names) : Params (ts ++ [.phrase .parametersEnd]) names
  | alone : Params [.phrase .parametersEnd] []

/-- A named method. -/
inductive MethodDef : List Token → Method → Prop
  | mk {name ts params us body} (hparams : Params ts params) (hbody : Star Statement us body) :
    MethodDef (.phrase .methodOpen :: .var name :: (ts ++ us ++ [.phrase .methodClose]))
      { name, params, body }

/-- The entry method, which has no parameters. -/
inductive MainMethod : List Token → Method → Prop
  | mk {ts body} (hbody : Star Statement ts body) :
    MainMethod (.phrase .mainOpen :: (ts ++ [.phrase .mainClose])) (.main body)

/-- The entry method and then the named ones. -/
inductive Program : List Token → Showtime.Program → Prop
  | mk {ts main us methods} (hmain : MainMethod ts main) (hmethods : Star MethodDef us methods) :
    Program (ts ++ us) { main, methods }

/-! ### Lists and single tokens -/

/-- One is a list of one. -/
theorem Star.single {α : Type} {R : List Token → α → Prop} {ts : List Token} {a : α} (h : R ts a) :
    Star R ts [a] := by
  simpa using Star.cons h .nil

/-- Lists stand one behind the other. -/
theorem Star.append {α : Type} {R : List Token → α → Prop} {ts us : List Token} {as bs : List α}
    (h : Star R ts as) (h' : Star R us bs) : Star R (ts ++ us) (as ++ bs) := by
  induction h with
  | nil => exact h'
  | cons head _ ih =>
    rw [List.append_assoc]
    exact .cons head ih

/-- One more at the end. -/
theorem Star.concat {α : Type} {R : List Token → α → Prop} {ts us : List Token} {as : List α}
    {a : α} (h : Star R ts as) (hlast : R us a) : Star R (ts ++ us) (as ++ [a]) :=
  h.append (.single hlast)

/-- A list that has a last element. -/
theorem Star.exists_concat {α : Type} {R : List Token → α → Prop} {ts : List Token} {as : List α}
    {a : α} (h : Star R ts (as ++ [a])) :
    ∃ us vs, ts = us ++ vs ∧ Star R us as ∧ R vs a := by
  induction as generalizing ts with
  | nil =>
    obtain _ | ⟨head, tail⟩ := h
    obtain ⟨⟩ := tail
    exact ⟨[], _, by rw [List.append_nil, List.nil_append], .nil, head⟩
  | cons b as ih =>
    obtain _ | ⟨head, tail⟩ := h
    obtain ⟨us, vs, rfl, hus, hvs⟩ := ih tail
    exact ⟨_, vs, (List.append_assoc _ _ _).symm, .cons head hus, hvs⟩

/-- Each element of a list has tokens of its own. -/
theorem Star.exists_of_mem {α : Type} {R : List Token → α → Prop} {ts : List Token} {as : List α}
    {a : α} (h : Star R ts as) (ha : a ∈ as) : ∃ us, R us a := by
  induction h with
  | nil => cases ha
  | cons head _ ih =>
    rcases List.mem_cons.1 ha with rfl | ha
    · exact ⟨_, head⟩
    · exact ih ha

/-- The parser takes exactly the variables for names. -/
theorem name?_eq_some_iff {t : Token} {name : String} :
    Parser.name? t = some name ↔ t = .var name := by
  cases t <;> simp [Parser.name?]

/-- A literal is the one token that the parser takes for it; so are the others. -/
theorem literal_iff {ts : List Token} {v : Value} :
    Literal ts v ↔ ∃ t, ts = [t] ∧ Parser.literal? t = some v := by
  constructor
  · intro h
    cases h <;> exact ⟨_, rfl, rfl⟩
  · rintro ⟨t, rfl, h⟩
    cases t with
    | int n =>
      obtain rfl := Option.some.inj h
      exact .int n
    | truth b =>
      obtain rfl := Option.some.inj h
      exact .truth b
    | _ => cases h

/-- An operand is one token that the parser takes for an operand. -/
theorem operand_iff {ts : List Token} {v : Value} :
    Operand ts v ↔ ∃ t, ts = [t] ∧ Parser.operand? t = some v := by
  constructor
  · intro h
    cases h <;> exact ⟨_, rfl, rfl⟩
  · rintro ⟨t, rfl, h⟩
    cases t with
    | int n =>
      obtain rfl := Option.some.inj h
      exact .int n
    | truth b =>
      obtain rfl := Option.some.inj h
      exact .truth b
    | var name =>
      obtain rfl := Option.some.inj h
      exact .var name
    | _ => cases h

/-- What can be printed is one token that the parser takes for it. -/
theorem printable_iff {ts : List Token} {v : Value} :
    Printable ts v ↔ ∃ t, ts = [t] ∧ Parser.printable? t = some v := by
  constructor
  · intro h
    cases h with
    | str s => exact ⟨_, rfl, rfl⟩
    | operand h => cases h <;> exact ⟨_, rfl, rfl⟩
  · rintro ⟨t, rfl, h⟩
    cases t with
    | str s =>
      obtain rfl := Option.some.inj h
      exact .str s
    | _ => exact .operand (operand_iff.2 ⟨_, rfl, h⟩)

/-- An operator is one phrase that the parser takes for an operator. -/
theorem foldOp_iff {ts : List Token} {op : Op} :
    FoldOp ts op ↔ ∃ p, ts = [.phrase p] ∧ Parser.foldOf? p = some op := by
  constructor
  · intro h
    cases h <;> exact ⟨_, rfl, rfl⟩
  · rintro ⟨p, rfl, h⟩
    cases p <;> cases h <;> constructor

/-- A statement begins with the phrase of its form. -/
theorem Statement.exists_opened {ts : List Token} {s : Showtime.Statement} (h : Statement ts s) :
    ∃ p us, ts = .phrase p :: us ∧ (Parser.opened? p).isSome := by
  cases h <;> exact ⟨_, _, rfl, rfl⟩

/-- One more method. -/
theorem Program.concat {ts us : List Token} {p : Showtime.Program} {m : Method}
    (h : Program ts p) (hm : MethodDef us m) :
    Program (ts ++ us) { p with methods := p.methods ++ [m] } := by
  obtain ⟨hmain, hmethods⟩ := h
  rw [List.append_assoc]
  exact .mk hmain (hmethods.concat hm)

/-- A program that has a last method. -/
theorem Program.exists_concat {ts : List Token} {main : Method} {ms : List Method} {m : Method}
    (h : Program ts { main, methods := ms ++ [m] }) :
    ∃ us vs, ts = us ++ vs ∧ Program us { main, methods := ms } ∧ MethodDef vs m := by
  obtain ⟨hmain, hmethods⟩ := h
  obtain ⟨us, vs, rfl, hus, hvs⟩ := hmethods.exists_concat
  exact ⟨_, vs, (List.append_assoc _ _ _).symm, .mk hmain hus, hvs⟩

/-- Parameters are any number of them, with or without the phrase at the end. -/
theorem params_iff {ts : List Token} {names : List String} :
    Params ts names ↔
      ∃ us, Star Param us names ∧ (ts = us ∨ ts = us ++ [.phrase .parametersEnd]) := by
  constructor
  · intro h
    cases h with
    | none => exact ⟨[], .nil, .inl rfl⟩
    | some h =>
      obtain ⟨head, tail⟩ := h
      exact ⟨_, .cons head tail, .inl rfl⟩
    | closed h =>
      obtain ⟨head, tail⟩ := h
      exact ⟨_, .cons head tail, .inr rfl⟩
    | alone => exact ⟨[], .nil, .inr rfl⟩
  · rintro ⟨us, h, rfl | rfl⟩
    · cases h with
      | nil => exact .none
      | cons head tail => exact .some (.cons head tail)
    · cases h with
      | nil => exact .alone
      | cons head tail => exact .closed (.cons head tail)

/-- The parameters are the names that stand in the header. -/
theorem Params.filterMap_name? {ts : List Token} {names : List String} (h : Params ts names) :
    ts.filterMap Parser.name? = names := by
  have hstar {us : List Token} {names : List String} (h : Star Param us names) :
      us.filterMap Parser.name? = names := by
    induction h with
    | nil => rfl
    | cons head _ ih =>
      obtain ⟨⟩ := head
      rw [List.filterMap_append, ih]
      rfl
  obtain ⟨us, hus, rfl | rfl⟩ := params_iff.1 h
  · exact hstar hus
  · rw [List.filterMap_append, hstar hus]
    exact List.append_nil names

end Grammar
end Showtime
