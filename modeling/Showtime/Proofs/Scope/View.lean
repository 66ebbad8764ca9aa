/-
# The stack seen from one of its scopes

A scope of the stack with its parent, the parent of that, and so on, shows a
chain of variables (`ScopeStack.Shows`).  Operations at the scope are operations
on the chain: look-up, declaration and change of value agree with those of
`Chain`.

An operation at a scope leaves all scopes alone that are neither the scope nor
above it, and moves no scope to another parent (`ScopeStack.ChangesWithin`).
When the scope was pushed for a method, nothing is above it, so discarding it
gives the stack back as it was (`ChangesWithin.pop_eq`).
-/

import Showtime.Proofs.Scope.Chain
import Showtime.Run.Scope

namespace Showtime

/-! ### Bindings as finite maps -/

/-- The finite map of the names of a scope: of entries with one name, the first
counts. -/
def Bindings.toVars : Bindings → Vars
  | [] => ∅
  | (key, value) :: rest => (toVars rest).insert key value

/-- The map of a list of bindings has the values that are found in the list. -/
@[simp]
theorem Bindings.lookup_toVars (name : String) (vars : Bindings) :
    (Bindings.toVars vars).lookup name = Bindings.find? name vars := by
  induction vars with
  | nil => rfl
  | cons head rest ih =>
    obtain ⟨key, value⟩ := head
    rw [toVars, find?]
    split_ifs with h
    · rw [h, Finmap.lookup_insert]
    · rw [Finmap.lookup_insert_of_ne _ (Ne.symm h), ih]

/-- The map of a list with a new binding is the map with the new binding. -/
@[simp]
theorem Bindings.toVars_insert (name : String) (value : Int64) (vars : Bindings) :
    Bindings.toVars (Bindings.insert name value vars) =
      (Bindings.toVars vars).insert name value := by
  refine Finmap.ext_lookup fun other => ?_
  rw [lookup_toVars, find?_insert]
  split_ifs with h
  · rw [h, Finmap.lookup_insert]
  · rw [Finmap.lookup_insert_of_ne _ (Ne.symm h), lookup_toVars]

/-- The map of a list has the names that are found in the list. -/
theorem Bindings.mem_toVars {name : String} {vars : Bindings} :
    name ∈ Bindings.toVars vars ↔ (Bindings.find? name vars).isSome := by
  rw [← Finmap.lookup_isSome, lookup_toVars]

namespace ScopeStack

variable {st st' st'' : ScopeStack} {ref target : ScopeRef} {c : Chain}

/-! ### The scopes of a stack, one by one -/

/-- The scope at a place. -/
def at? (st : ScopeStack) (ref : ScopeRef) : Option Scope := st.scopes[ref.index]?

/-- A stack is known by what is at each place. -/
theorem ext_at? (h : ∀ ref, st'.at? ref = st.at? ref) : st' = st := by
  obtain ⟨a⟩ := st
  obtain ⟨b⟩ := st'
  exact congrArg ScopeStack.mk (Array.ext_getElem? fun i => h ⟨i⟩)

/-- Where there is a scope, the place is within the stack. -/
theorem at?_lt {s : Scope} (h : st.at? ref = some s) : ref.index < st.size :=
  (Array.getElem?_eq_some_iff.1 h).1

/-- A fresh scope comes behind the others, which stay. -/
theorem at?_push (st : ScopeStack) (parent : Option ScopeRef) (ref : ScopeRef) :
    (st.push parent).at? ref =
      if ref.index = st.size then some { parent, vars := [] } else st.at? ref :=
  Array.getElem?_push

/-- A fresh scope does not change those that were there. -/
theorem at?_push_of_lt {parent : Option ScopeRef} (h : ref.index < st.size) :
    (st.push parent).at? ref = st.at? ref := by
  rw [at?_push, if_neg (Nat.ne_of_lt h)]

/-- A fresh scope is at the next place, with no variables. -/
theorem at?_push_next (st : ScopeStack) (parent : Option ScopeRef) :
    (st.push parent).at? st.next = some { parent, vars := [] } :=
  (at?_push ..).trans (if_pos rfl)

/-- Discarding keeps the scopes before the place and no others. -/
theorem at?_pop (st : ScopeStack) (last ref : ScopeRef) :
    (st.pop last).at? ref = if ref.index < last.index then st.at? ref else none := by
  simp only [at?, pop, Array.shrink_eq_take, Array.take_eq_extract, Array.getElem?_extract]
  split_ifs with h₁ h₂ h₂
  · rw [Nat.zero_add]
  · omega
  · rw [Array.getElem?_eq_none (by omega)]
  · rfl

/-- A declaration changes the bindings of one scope. -/
theorem at?_declare (st : ScopeStack) (owner : ScopeRef) (name : String) (value : Int64)
    (ref : ScopeRef) :
    (st.declare owner name value).at? ref =
      if owner = ref then
        (st.at? ref).map fun s => { s with vars := Bindings.insert name value s.vars }
      else st.at? ref := by
  obtain ⟨i⟩ := owner
  obtain ⟨j⟩ := ref
  simp only [at?, declare, Array.getElem?_modify, ScopeRef.mk.injEq]

/-! ### The chain that a scope shows -/

/-- The scope at a place, with its parent and so on, shows a chain.  Parents come
before their children. -/
inductive Shows (st : ScopeStack) : ScopeRef → Chain → Prop
  | root {ref : ScopeRef} {vars : Bindings} (h : st.at? ref = some { parent := none, vars }) :
    Shows st ref (.root (Bindings.toVars vars))
  | child {ref parent : ScopeRef} {vars : Bindings} {outer : Chain}
    (h : st.at? ref = some { parent := some parent, vars }) (lt : parent.index < ref.index)
    (above : Shows st parent outer) : Shows st ref (.child (Bindings.toVars vars) outer)

/-- A place is reached from a scope by going to the parent, any number of times. -/
inductive Reaches (st : ScopeStack) : ScopeRef → ScopeRef → Prop
  | here (ref : ScopeRef) : Reaches st ref ref
  | up {ref parent target : ScopeRef} {s : Scope} (h : st.at? ref = some s)
    (hparent : s.parent = some parent) (above : Reaches st parent target) : Reaches st ref target

/-- A scope that shows a chain is there. -/
theorem Shows.lt_size (h : st.Shows ref c) : ref.index < st.size := by
  cases h with
  | root h => exact at?_lt h
  | child h => exact at?_lt h

/-- What a scope shows depends on the scopes up to its place. -/
theorem Shows.congr (h : st.Shows ref c)
    (same : ∀ other : ScopeRef, other.index ≤ ref.index → st'.at? other = st.at? other) :
    st'.Shows ref c := by
  induction h with
  | root h => exact .root ((same _ le_rfl).trans h)
  | child h lt _ ih =>
    exact .child ((same _ le_rfl).trans h) lt (ih fun other hle => same other (hle.trans lt.le))

/-- A fresh scope does not change what the others show. -/
theorem Shows.push (h : st.Shows ref c) (parent : Option ScopeRef) :
    (st.push parent).Shows ref c :=
  h.congr fun _ hle => at?_push_of_lt (hle.trans_lt h.lt_size)

/-- A fresh scope without a parent shows one empty map. -/
theorem shows_push_none (st : ScopeStack) : (st.push none).Shows st.next (.root ∅) := by
  have h : (st.push none).Shows st.next (.root (Bindings.toVars [])) :=
    .root (at?_push_next st none)
  exact h

/-- A fresh scope shows the chain of its parent behind an empty map. -/
theorem Shows.push_child (h : st.Shows ref c) :
    (st.push (some ref)).Shows st.next c.enter := by
  have h : (st.push (some ref)).Shows st.next (.child (Bindings.toVars []) c) :=
    .child (at?_push_next st _) h.lt_size (h.push _)
  exact h

/-- What is shown is determined by the stack. -/
theorem Shows.child_inv {parent : ScopeRef} {s : Scope} (h : st.Shows ref c)
    (hs : st.at? ref = some s) (hparent : s.parent = some parent) :
    ∃ vars outer, c = .child vars outer ∧ parent.index < ref.index ∧ st.Shows parent outer := by
  cases h with
  | root h =>
    obtain rfl := Option.some.inj (hs.symm.trans h)
    simp at hparent
  | child h lt above =>
    obtain rfl := Option.some.inj (hs.symm.trans h)
    obtain rfl := Option.some.inj hparent
    exact ⟨_, _, rfl, lt, above⟩

/-! ### Looking up -/

/-- One step of the search: the scope itself, else its parent. -/
theorem ownerWithin_succ (st : ScopeStack) (name : String) (steps : Nat) (ref : ScopeRef) :
    st.ownerWithin name (steps + 1) ref = (st.at? ref).bind fun s =>
      if (Bindings.find? name s.vars).isSome then some ref
      else s.parent.bind (st.ownerWithin name steps) := by
  rw [ownerWithin, at?]
  split
  · next h => rw [h, Option.bind_none]
  · next s h =>
    rw [h, Option.bind_some]
    cases s.parent <;> rfl

/-- The nearest scope that binds a name is on the chain, and there the name has
the value that the chain gives it. -/
theorem Shows.ownerWithin (h : st.Shows ref c) (name : String) {steps : Nat}
    (hsteps : ref.index < steps) :
    match st.ownerWithin name steps ref with
    | some owner => st.Reaches ref owner ∧ ∃ s, st.at? owner = some s ∧
        (c.lookup name).isSome ∧ Bindings.find? name s.vars = c.lookup name
    | none => c.lookup name = none := by
  induction h generalizing steps with
  | @root ref vars h =>
    obtain ⟨steps, rfl⟩ := Nat.exists_eq_add_one.2 (Nat.zero_lt_of_lt hsteps)
    rw [ownerWithin_succ, h, Option.bind_some, Chain.lookup, Bindings.lookup_toVars]
    by_cases hfind : (Bindings.find? name vars).isSome
    · rw [if_pos hfind]
      exact ⟨.here ref, _, h, hfind, rfl⟩
    · rw [if_neg hfind]
      simpa using hfind
  | @child ref parent vars outer h lt above ih =>
    obtain ⟨steps, rfl⟩ := Nat.exists_eq_add_one.2 (Nat.zero_lt_of_lt hsteps)
    rw [ownerWithin_succ, h, Option.bind_some, Chain.lookup, Bindings.lookup_toVars]
    by_cases hfind : (Bindings.find? name vars).isSome
    · rw [if_pos hfind]
      obtain ⟨value, hvalue⟩ := Option.isSome_iff_exists.1 hfind
      exact ⟨.here ref, _, h, by simp [hvalue], by simp [hvalue]⟩
    · have hnone : Bindings.find? name vars = none := by simpa using hfind
      have ih := ih (lt.trans_le (Nat.le_of_lt_succ hsteps))
      rw [if_neg hfind, hnone, Option.none_or, Option.bind_some]
      split
      · next owner howner =>
        rw [howner] at ih
        exact ⟨.up h rfl ih.1, ih.2⟩
      · next hnone =>
        rw [hnone] at ih
        exact ih

/-- The owner of a name is the scope that gives the chain its value, and there is none
where the chain has none. -/
theorem Shows.owner (h : st.Shows ref c) (name : String) :
    match st.owner ref name with
    | some owner => st.Reaches ref owner ∧ ∃ s, st.at? owner = some s ∧
        (c.lookup name).isSome ∧ Bindings.find? name s.vars = c.lookup name
    | none => c.lookup name = none :=
  h.ownerWithin name h.lt_size

/-- **Look-up from a scope is look-up in the chain that it shows.** -/
theorem Shows.lookup (h : st.Shows ref c) (name : String) :
    st.lookup ref name = c.lookup name := by
  have howner := h.owner name
  rw [ScopeStack.lookup]
  split at howner
  · next owner heq =>
    obtain ⟨-, s, hs, -, hfind⟩ := howner
    rw [heq, ← hfind]
    exact congrArg (Option.bind · fun s : Scope => Bindings.find? name s.vars) hs
  · next heq =>
    rw [heq, howner]
    rfl

/-- A scope contains the names that have a value on its chain. -/
theorem Shows.contains (h : st.Shows ref c) (name : String) :
    st.contains ref name = (c.lookup name).isSome := by
  have howner := h.owner name
  rw [ScopeStack.contains]
  split at howner
  · next owner heq =>
    obtain ⟨-, s, -, hsome, -⟩ := howner
    rw [heq, hsome, Option.isSome_some]
  · next heq =>
    rw [heq, howner]
    rfl

/-- Operands have in a scope the values that they have on its chain. -/
theorem Shows.get (h : st.Shows ref c) : st.get ref = c.get := by
  funext v
  cases v with
  | var name =>
    cases hlookup : c.lookup name <;>
      simp only [ScopeStack.get, Chain.get, h.lookup name, hlookup]
  | int n => rfl
  | str s => rfl

/-! ### Declaring and changing -/

/-- Binding a name in the scope itself. -/
theorem Shows.declare (h : st.Shows ref c) (name : String) (value : Int64) :
    (st.declare ref name value).Shows ref (c.declare name value) := by
  cases h with
  | root h =>
    rw [Chain.declare, ← Bindings.toVars_insert]
    exact .root (by rw [at?_declare, if_pos rfl, h]; rfl)
  | @child _ parent vars outer h lt above =>
    rw [Chain.declare, ← Bindings.toVars_insert]
    refine .child (by rw [at?_declare, if_pos rfl, h]; rfl) lt (above.congr fun other hle => ?_)
    rw [at?_declare, if_neg]
    rintro rfl
    omega

/-- Scopes above a scope come before it. -/
theorem Shows.le_of_reaches (h : st.Shows ref c) (hreach : st.Reaches ref target) :
    target.index ≤ ref.index := by
  induction hreach generalizing c with
  | here ref => exact le_rfl
  | up hs hparent _ ih =>
    obtain ⟨_, _, -, lt, above⟩ := h.child_inv hs hparent
    exact (ih above).trans lt.le

/-- Binding a name where it is found changes its value in the chain. -/
theorem Shows.declare_ownerWithin (h : st.Shows ref c) (name : String) (value : Int64)
    {steps : Nat} (hsteps : ref.index < steps) {owner : ScopeRef}
    (howner : st.ownerWithin name steps ref = some owner) :
    ∃ c', c.set? name value = some c' ∧ (st.declare owner name value).Shows ref c' := by
  induction h generalizing steps with
  | @root ref vars h =>
    have hroot : st.Shows ref (.root (Bindings.toVars vars)) := .root h
    obtain ⟨steps, rfl⟩ := Nat.exists_eq_add_one.2 (Nat.zero_lt_of_lt hsteps)
    rw [ownerWithin_succ, h, Option.bind_some] at howner
    split_ifs at howner with hfind
    · obtain rfl := Option.some.inj howner
      rw [Chain.set?, if_pos (Bindings.mem_toVars.2 hfind)]
      exact ⟨_, rfl, hroot.declare name value⟩
    · simp at howner
  | @child ref parent vars outer h lt above ih =>
    have hchild : st.Shows ref (.child (Bindings.toVars vars) outer) := .child h lt above
    obtain ⟨steps, rfl⟩ := Nat.exists_eq_add_one.2 (Nat.zero_lt_of_lt hsteps)
    rw [ownerWithin_succ, h, Option.bind_some] at howner
    split_ifs at howner with hfind
    · obtain rfl := Option.some.inj howner
      rw [Chain.set?, if_pos (Bindings.mem_toVars.2 hfind)]
      exact ⟨_, rfl, hchild.declare name value⟩
    · rw [Option.bind_some] at howner
      have hparent : parent.index < steps := lt.trans_le (Nat.le_of_lt_succ hsteps)
      obtain ⟨c', hset, hshows⟩ := ih hparent howner
      rw [Chain.set?, if_neg (Bindings.mem_toVars.not.2 hfind), hset]
      refine ⟨_, rfl, .child ?_ lt hshows⟩
      -- the scope that changes is the parent or above it, so it is not this one
      have hfound := above.ownerWithin name hparent
      rw [howner] at hfound
      have hle := above.le_of_reaches hfound.1
      rw [at?_declare, if_neg, h]
      rintro rfl
      omega

/-- Changing a value from a scope changes it in the chain, and fails where the
chain has none. -/
theorem Shows.set (h : st.Shows ref c) (name : String) (value : Int64) :
    match c.set? name value with
    | some c' => ∃ owner, st.Reaches ref owner ∧
        st.set ref name value = .ok (st.declare owner name value) ∧
          (st.declare owner name value).Shows ref c'
    | none => st.set ref name value = .error (.undefinedVariable name) := by
  have hfound := h.owner name
  cases howner : st.owner ref name with
  | some owner =>
    rw [howner] at hfound
    obtain ⟨c', hset, hshows⟩ := h.declare_ownerWithin name value h.lt_size howner
    rw [hset]
    exact ⟨owner, hfound.1, by rw [ScopeStack.set, howner], hshows⟩
  | none =>
    rw [howner] at hfound
    have hset := c.set?_isSome name value
    rw [hfound, Option.isSome_none, Option.isSome_eq_false_iff, Option.isNone_iff_eq_none] at hset
    rw [hset, ScopeStack.set, howner]

/-! ### What stays the same -/

/-- From one stack to the other, no scope gets another parent, and only scopes
that are reached from a place have other variables. -/
structure ChangesWithin (ref : ScopeRef) (st st' : ScopeStack) : Prop where
  parents : ∀ i, (st'.at? i).map Scope.parent = (st.at? i).map Scope.parent
  beyond : ∀ i, ¬ st.Reaches ref i → st'.at? i = st.at? i

/-- Nothing changes from a stack to itself. -/
theorem ChangesWithin.refl (ref : ScopeRef) (st : ScopeStack) : ChangesWithin ref st st :=
  ⟨fun _ => rfl, fun _ _ => rfl⟩

/-- With the same parents, the same scopes are reached. -/
theorem Reaches.congr {i : ScopeRef}
    (parents : ∀ i, (st'.at? i).map Scope.parent = (st.at? i).map Scope.parent)
    (h : st.Reaches ref i) : st'.Reaches ref i := by
  induction h with
  | here ref => exact .here ref
  | @up ref parent target s hs hparent _ ih =>
    have hsame := parents ref
    rw [hs, Option.map_some, Option.map_eq_some_iff] at hsame
    obtain ⟨s', hs', hparent'⟩ := hsame
    exact .up hs' (hparent'.trans hparent) ih

/-- Changes within the same reach add up. -/
theorem ChangesWithin.trans (h : ChangesWithin ref st st') (h' : ChangesWithin ref st' st'') :
    ChangesWithin ref st st'' := by
  refine ⟨fun i => (h'.parents i).trans (h.parents i), fun i hi => ?_⟩
  have hi' : ¬ st'.Reaches ref i := fun hr => hi (hr.congr fun i => (h.parents i).symm)
  exact (h'.beyond i hi').trans (h.beyond i hi)

/-- Binding a name in a scope that is reached. -/
theorem changesWithin_declare (st : ScopeStack) {owner : ScopeRef} (h : st.Reaches ref owner)
    (name : String) (value : Int64) :
    ChangesWithin ref st (st.declare owner name value) := by
  constructor
  · intro i
    rw [at?_declare]
    split_ifs
    · cases st.at? i <;> rfl
    · rfl
  · intro i hi
    rw [at?_declare, if_neg]
    rintro rfl
    exact hi h

/-! ### Scopes that are pushed and discarded -/

/-- What is reached from a scope below a fresh one was reached before. -/
theorem Reaches.of_push {parent : Option ScopeRef} {i : ScopeRef} (hshows : st.Shows ref c)
    (h : (st.push parent).Reaches ref i) : st.Reaches ref i := by
  induction h generalizing c with
  | here ref => exact .here ref
  | up hs hparent _ ih =>
    rw [at?_push_of_lt hshows.lt_size] at hs
    obtain ⟨_, _, -, -, above⟩ := hshows.child_inv hs hparent
    exact .up hs hparent (ih above)

/-- Discarding a fresh child of a scope leaves changes at the scope and above. -/
theorem ChangesWithin.pop (hshows : st.Shows ref c)
    (h : ChangesWithin st.next (st.push (some ref)) st') :
    ChangesWithin ref st (st'.pop st.next) := by
  have hnone (i : ScopeRef) (hi : ¬ i.index < st.next.index) : st.at? i = none :=
    Array.getElem?_eq_none (Nat.le_of_not_lt hi)
  constructor
  · intro i
    rw [at?_pop]
    split_ifs with hi
    · rw [h.parents, at?_push_of_lt hi]
    · rw [hnone i hi]
  · intro i hreach
    rw [at?_pop]
    split_ifs with hi
    · rw [h.beyond i, at?_push_of_lt hi]
      -- the way from the fresh scope leads through its parent
      intro hfresh
      cases hfresh with
      | here => exact absurd hi (Nat.lt_irrefl _)
      | up hs hparent above =>
        rw [at?_push_next] at hs
        obtain rfl := Option.some.inj hs
        obtain rfl := Option.some.inj hparent
        exact hreach (above.of_push hshows)
    · rw [hnone i hi]

/-- **Discarding a fresh scope without a parent gives the stack back.** -/
theorem ChangesWithin.pop_eq (h : ChangesWithin st.next (st.push none) st') :
    st'.pop st.next = st := by
  refine ext_at? fun i => ?_
  rw [at?_pop]
  split_ifs with hi
  · rw [h.beyond i, at?_push_of_lt hi]
    intro hfresh
    cases hfresh with
    | here => exact absurd hi (Nat.lt_irrefl _)
    | up hs hparent above =>
      rw [at?_push_next] at hs
      obtain rfl := Option.some.inj hs
      simp at hparent
  · exact (Array.getElem?_eq_none (Nat.le_of_not_lt hi)).symm

/-- To discard a fresh scope is to have the stack as it was. -/
theorem pop_push (st : ScopeStack) (parent : Option ScopeRef) :
    (st.push parent).pop st.next = st := by
  refine ext_at? fun i => ?_
  rw [at?_pop]
  split_ifs with hi
  · exact at?_push_of_lt hi
  · exact (Array.getElem?_eq_none (Nat.le_of_not_lt hi)).symm

/-- What the parent of a discarded scope shows. -/
theorem Shows.pop {c' : Chain} (hshows : st.Shows ref c)
    (hwithin : ChangesWithin st.next (st.push (some ref)) st') (h : st'.Shows st.next c') :
    ∃ vars outer, c' = .child vars outer ∧ (st'.pop st.next).Shows ref outer := by
  have hparent := hwithin.parents st.next
  rw [at?_push_next, Option.map_some, Option.map_eq_some_iff] at hparent
  obtain ⟨s, hs, hparent⟩ := hparent
  obtain ⟨vars, outer, rfl, -, above⟩ := h.child_inv hs hparent
  exact ⟨vars, outer, rfl, above.congr fun other hle =>
    (at?_pop ..).trans (if_pos (hle.trans_lt hshows.lt_size))⟩

end ScopeStack
end Showtime
