/-
# Chains of variables

The plain picture of what a statement sees: a non-empty list of finite maps, the
innermost scope first.  A name means its value in the first map that binds it,
a declaration writes to the first map, and a change of value goes to the first
map that binds the name.  There are no places and no links between scopes here;
`Showtime.Proofs.Scope.View` reads a chain off the stack of a run.
-/

import Mathlib.Data.Finmap
import Showtime.Program.Basic
import Showtime.Run.Error

namespace Showtime

/-- The variables of one scope: a finite map from names to integers. -/
abbrev Vars := Finmap fun _ : String => Int64

/-- A non-empty list of scopes, innermost first. -/
inductive Chain where
  /-- The last scope of the list. -/
  | root (vars : Vars)
  /-- A scope and the scopes around it. -/
  | child (vars : Vars) (outer : Chain)

namespace Chain

/-- The value of a name in the first scope that binds it. -/
def lookup (name : String) : Chain → Option Int64
  | root vars => vars.lookup name
  | child vars outer => (vars.lookup name).or (outer.lookup name)

/-- Binds a name in the first scope. -/
def declare (name : String) (value : Int64) : Chain → Chain
  | root vars => root (vars.insert name value)
  | child vars outer => child (vars.insert name value) outer

/-- Changes the value of a name in the first scope that binds it, if one does. -/
def set? (name : String) (value : Int64) : Chain → Option Chain
  | root vars => if name ∈ vars then some (root (vars.insert name value)) else none
  | child vars outer =>
    if name ∈ vars then some (child (vars.insert name value) outer)
    else (outer.set? name value).map (child vars)

/-- A fresh scope inside the chain. -/
def enter (c : Chain) : Chain := child ∅ c

/-- The integer of an operand. -/
def get (c : Chain) : Value → Except RuntimeError Int64
  | .int n => .ok n
  | .var name =>
    match c.lookup name with
    | some n => .ok n
    | none => .error (.undefinedVariable name)
  | .str _ => .error (.typeError "integer" "string")

/-- The changed chain, or the error that no scope binds the name. -/
def set (c : Chain) (name : String) (value : Int64) : Except RuntimeError Chain :=
  match c.set? name value with
  | some c => .ok c
  | none => .error (.undefinedVariable name)

/-- Gives a value to a name: to the variable that is in sight, or else to a new
one in the first scope. -/
def assign (c : Chain) (name : String) (value : Int64) : Chain :=
  (c.set? name value).getD (c.declare name value)

/-- An empty scope hides nothing. -/
@[simp]
theorem lookup_enter (c : Chain) (name : String) : c.enter.lookup name = c.lookup name := by
  simp [enter, lookup]

/-- An empty scope changes no operand. -/
@[simp]
theorem get_enter (c : Chain) : c.enter.get = c.get := by
  funext v
  cases v <;> simp [get]

/-- **A value can be changed exactly where there is one.** -/
theorem set?_isSome (c : Chain) (name : String) (value : Int64) :
    (c.set? name value).isSome = (c.lookup name).isSome := by
  induction c with
  | root vars =>
    rw [set?, lookup, Bool.eq_iff_iff, Finmap.lookup_isSome]
    split_ifs with h <;> simp [h]
  | child vars outer ih =>
    rw [set?, lookup]
    split_ifs with h
    · simp [Finmap.lookup_isSome.2 h]
    · rw [Option.isSome_map, ih, Finmap.lookup_eq_none.2 h, Option.none_or]

/-- A declaration gives the value to its own name, whatever had it before. -/
theorem lookup_declare (c : Chain) (name other : String) (value : Int64) :
    (c.declare name value).lookup other = if other = name then some value else c.lookup other := by
  split_ifs with h
  · subst h
    cases c <;> simp [declare, lookup]
  · cases c <;> simp [declare, lookup, Finmap.lookup_insert_of_ne _ h]

/-- A name that is set has the new value, and every other name has the old one. -/
theorem lookup_of_set? {c c' : Chain} {name : String} {value : Int64}
    (h : c.set? name value = some c') (other : String) :
    c'.lookup other = if other = name then some value else c.lookup other := by
  induction c generalizing c' with
  | root vars =>
    rw [set?] at h
    split_ifs at h
    obtain rfl := Option.some.inj h
    exact lookup_declare (root vars) name other value
  | child vars outer ih =>
    rw [set?] at h
    split_ifs at h with hmem
    · obtain rfl := Option.some.inj h
      exact lookup_declare (child vars outer) name other value
    · obtain ⟨outer', houter, rfl⟩ := Option.map_eq_some_iff.1 h
      rw [lookup, lookup, ih houter]
      split_ifs with hother
      · rw [hother, Finmap.lookup_eq_none.2 hmem, Option.none_or]
      · rfl

/-- **Whether the variable is new or not, the name has the value afterwards**, and no
other name has another value. -/
theorem lookup_assign (c : Chain) (name other : String) (value : Int64) :
    (c.assign name value).lookup other = if other = name then some value else c.lookup other := by
  rw [assign]
  cases hset : c.set? name value with
  | none => exact c.lookup_declare name other value
  | some c' => exact lookup_of_set? hset other

end Chain

/-- The variables of a method that is called: its parameters with the values of
the arguments.  Of parameters with one name, the last counts. -/
def Vars.ofParams (params : List String) (values : List Int64) : Vars :=
  (params.zip values).foldl (fun vars binding => vars.insert binding.1 binding.2) ∅

namespace Vars

/-- What a row of insertions binds. -/
theorem mem_foldl_insert (bindings : List (String × Int64)) (vars : Vars) (name : String) :
    name ∈ bindings.foldl (fun vars binding => vars.insert binding.1 binding.2) vars ↔
      name ∈ bindings.map Prod.fst ∨ name ∈ vars := by
  induction bindings generalizing vars with
  | nil => simp
  | cons binding rest ih => simp [ih, Finmap.mem_insert, or_left_comm, or_assoc]

/-- Bindings of other names do not change this one. -/
theorem lookup_foldl_insert {bindings : List (String × Int64)} {name : String}
    (h : name ∉ bindings.map Prod.fst) (vars : Vars) :
    (bindings.foldl (fun vars binding => vars.insert binding.1 binding.2) vars).lookup name =
      vars.lookup name := by
  induction bindings generalizing vars with
  | nil => rfl
  | cons binding rest ih =>
    rw [List.map_cons, List.mem_cons, not_or] at h
    rw [List.foldl_cons, ih h.2, Finmap.lookup_insert_of_ne _ h.1]

/-- A method that is called with one value for each parameter has its parameters for
variables, and no others. -/
theorem mem_ofParams {params : List String} {values : List Int64}
    (h : params.length = values.length) (name : String) :
    name ∈ ofParams params values ↔ name ∈ params := by
  rw [ofParams, mem_foldl_insert, List.map_fst_zip h.le, or_iff_left Finmap.notMem_empty]

/-- **If the parameters are distinct, each has the value in its place.** -/
theorem lookup_ofParams {params : List String} {values : List Int64} (hnodup : params.Nodup)
    (h : params.length = values.length) :
    List.Forall₂ (fun name value => (ofParams params values).lookup name = some value)
      params values := by
  rw [ofParams]
  generalize (∅ : Vars) = vars
  induction params generalizing values vars with
  | nil =>
    cases values with
    | nil => exact .nil
    | cons value values => cases h
  | cons name names ih =>
    cases values with
    | nil => cases h
    | cons value values =>
      obtain ⟨hname, hnames⟩ := List.nodup_cons.1 hnodup
      have hlength : names.length = values.length := Nat.succ.inj h
      rw [List.zip_cons_cons, List.foldl_cons]
      refine .cons ?_ (ih hnames hlength _)
      rw [lookup_foldl_insert, Finmap.lookup_insert]
      rwa [List.map_fst_zip hlength.le]

end Vars

end Showtime
