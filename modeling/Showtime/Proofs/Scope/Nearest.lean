/-
# The nearest binding of a name

A scope that binds a name hides the bindings of the scopes above it.  Of the
scopes that are reached from a place, the first that binds a name is the
`Nearest`.  A search from the place finds it (`nearest_of_owner`), and a change
of value goes to its binding and to no other (`set_of_owner`).

A fresh scope is no obstacle for a search: from there each name means what it
means to the parent (`get_push_child`), on every stack, also on one whose parents
do not come first.
-/

import Showtime.Proofs.Scope.Names

namespace Showtime
namespace ScopeStack

variable {st : ScopeStack} {ref owner : ScopeRef} {name : String}

/-! ### Searching -/

/-- The value that a scope itself has for a name. -/
def binding? (st : ScopeStack) (ref : ScopeRef) (name : String) : Option Int64 :=
  (st.at? ref).bind fun s => Bindings.find? name s.vars

/-- The first scope that binds the name, on the way from a place to its parent, to the
parent of that, and so on. -/
inductive Nearest (st : ScopeStack) (name : String) : ScopeRef → ScopeRef → Prop
  | here {ref : ScopeRef} (h : st.Binds ref name) : Nearest st name ref ref
  | up {ref parent owner : ScopeRef} {s : Scope} (hs : st.at? ref = some s)
    (hparent : s.parent = some parent) (hnot : ¬ st.Binds ref name)
    (above : Nearest st name parent owner) : Nearest st name ref owner

/-- The nearest scope that binds a name binds it. -/
theorem Nearest.binds (h : st.Nearest name ref owner) : st.Binds owner name := by
  induction h with
  | here h => exact h
  | up _ _ _ _ ih => exact ih

/-- A name is looked up where its owner is. -/
theorem lookup_eq_bind (st : ScopeStack) (ref : ScopeRef) (name : String) :
    st.lookup ref name = (st.owner ref name).bind (st.binding? · name) := rfl

/-- One step of a search: the scope binds the name, or the search goes on at its parent. -/
theorem ownerWithin_succ_eq_some {steps : Nat}
    (h : st.ownerWithin name (steps + 1) ref = some owner) :
    ∃ s, st.at? ref = some s ∧
      (((Bindings.find? name s.vars).isSome ∧ owner = ref) ∨
        Bindings.find? name s.vars = none ∧
          ∃ parent, s.parent = some parent ∧ st.ownerWithin name steps parent = some owner) := by
  rw [ownerWithin_succ, Option.bind_eq_some_iff] at h
  obtain ⟨s, hs, h⟩ := h
  refine ⟨s, hs, ?_⟩
  split_ifs at h with hfind
  · exact .inl ⟨hfind, (Option.some.inj h).symm⟩
  · obtain ⟨parent, hparent, h⟩ := Option.bind_eq_some_iff.1 h
    exact .inr ⟨by simpa using hfind, parent, hparent, h⟩

/-- A search that finds a scope finds the nearest one, in however many steps. -/
theorem nearest_of_ownerWithin {steps : Nat} (h : st.ownerWithin name steps ref = some owner) :
    st.Nearest name ref owner := by
  induction steps generalizing ref with
  | zero => cases h
  | succ steps ih =>
    obtain ⟨s, hs, ⟨hfind, rfl⟩ | ⟨hfind, parent, hparent, h⟩⟩ := ownerWithin_succ_eq_some h
    · exact .here ⟨s, hs, hfind⟩
    · refine .up hs hparent ?_ (ih h)
      rintro ⟨s', hs', hsome⟩
      obtain rfl := Option.some.inj (hs.symm.trans hs')
      simp [hfind] at hsome

/-- **A search finds the nearest scope that binds the name.** -/
theorem nearest_of_owner (h : st.owner ref name = some owner) : st.Nearest name ref owner :=
  nearest_of_ownerWithin h

/-- A name has a value where the search finds a scope. -/
theorem lookup_isSome (st : ScopeStack) (ref : ScopeRef) (name : String) :
    (st.lookup ref name).isSome = (st.owner ref name).isSome := by
  rw [lookup_eq_bind]
  cases howner : st.owner ref name with
  | none => rfl
  | some owner =>
    obtain ⟨s, hs, hsome⟩ := (nearest_of_owner howner).binds
    rw [Option.bind_some, binding?, hs, Option.bind_some, hsome, Option.isSome_some]

/-! ### Changing the value -/

/-- From one stack to the other one binding gets another value, and nothing else has
changed: no other binding, and no parent of a scope. -/
structure Rebinds (owner : ScopeRef) (name : String) (value : Int64) (st st' : ScopeStack) :
    Prop where
  parents : ∀ i, (st'.at? i).map Scope.parent = (st.at? i).map Scope.parent
  binding : ∀ i other, st'.binding? i other =
    if i = owner ∧ other = name then some value else st.binding? i other

/-- A declaration gives one binding another value, new or not. -/
theorem rebinds_declare {s : Scope} (hs : st.at? owner = some s) (value : Int64) :
    Rebinds owner name value st (st.declare owner name value) := by
  refine ⟨(changesWithin_declare st (.here owner) name value).parents, fun i other => ?_⟩
  rw [binding?, at?_declare]
  by_cases hi : owner = i
  · subst hi
    rw [if_pos rfl, hs, Option.map_some, Option.bind_some, Bindings.find?_insert, binding?, hs,
      Option.bind_some]
    simp only [eq_comm, true_and]
  · rw [if_neg hi, if_neg fun h => hi h.1.symm, binding?]

/-- **A change of value goes to the nearest binding and to no other.** -/
theorem set_of_owner (howner : st.owner ref name = some owner) (value : Int64) :
    ∃ st', st.set ref name value = .ok st' ∧ Rebinds owner name value st st' := by
  obtain ⟨s, hs, -⟩ := (nearest_of_owner howner).binds
  exact ⟨_, by rw [set, howner], rebinds_declare hs value⟩

/-! ### Searching from a fresh scope -/

/-- A search that has found a scope finds no other in more steps. -/
theorem ownerWithin_of_le {steps steps' : Nat} (hle : steps ≤ steps')
    (h : st.ownerWithin name steps ref = some owner) :
    st.ownerWithin name steps' ref = some owner := by
  induction steps generalizing ref steps' with
  | zero => cases h
  | succ steps ih =>
    obtain ⟨steps', rfl⟩ := Nat.exists_eq_add_one.2 (Nat.zero_lt_of_lt hle)
    obtain ⟨s, hs, ⟨hfind, rfl⟩ | ⟨hfind, parent, hparent, h⟩⟩ := ownerWithin_succ_eq_some h
    · rw [ownerWithin_succ, hs, Option.bind_some, if_pos hfind]
    · rw [ownerWithin_succ, hs, Option.bind_some, hfind, hparent]
      exact ih (Nat.le_of_succ_le_succ hle) h

/-- A search that ends well does not meet the fresh scope. -/
theorem ownerWithin_push {steps : Nat} (parent : Option ScopeRef)
    (h : st.ownerWithin name steps ref = some owner) :
    (st.push parent).ownerWithin name steps ref = some owner := by
  induction steps generalizing ref with
  | zero => cases h
  | succ steps ih =>
    obtain ⟨s, hs, hcases⟩ := ownerWithin_succ_eq_some h
    rw [ownerWithin_succ, at?_push_of_lt (at?_lt hs), hs, Option.bind_some]
    obtain ⟨hfind, rfl⟩ | ⟨hfind, above, habove, h⟩ := hcases
    · rw [if_pos hfind]
    · rw [hfind, habove]
      exact ih h

/-- A search that does meet the fresh child of a scope goes on at this scope. -/
theorem ownerWithin_of_push {parent : ScopeRef} {steps : Nat}
    (h : (st.push (some parent)).ownerWithin name steps ref = some owner) :
    st.ownerWithin name steps ref = some owner ∨ st.ownerWithin name steps parent = some owner := by
  induction steps generalizing ref with
  | zero => cases h
  | succ steps ih =>
    obtain ⟨s, hs, hcases⟩ := ownerWithin_succ_eq_some h
    rw [at?_push] at hs
    split_ifs at hs with hfresh
    · obtain rfl := Option.some.inj hs
      obtain ⟨hfind, -⟩ | ⟨-, above, habove, h⟩ := hcases
      · cases hfind
      · obtain rfl := Option.some.inj habove
        exact .inr (ownerWithin_of_le (Nat.le_succ steps) ((ih h).elim id id))
    · rw [ownerWithin_succ, hs, Option.bind_some]
      obtain ⟨hfind, rfl⟩ | ⟨hfind, above, habove, h⟩ := hcases
      · exact .inl (if_pos hfind)
      · rw [hfind, habove]
        exact (ih h).imp id (ownerWithin_of_le (Nat.le_succ steps))

/-- A child that binds nothing searches as its parent does. -/
theorem owner_push_child (st : ScopeStack) (ref : ScopeRef) (name : String) :
    (st.push (some ref)).owner st.next name = st.owner ref name := by
  have hsize : (st.push (some ref)).size = st.size + 1 := Array.size_push ..
  have hnext : (st.push (some ref)).owner st.next name =
      (st.push (some ref)).ownerWithin name st.size ref := by
    rw [owner, hsize, ownerWithin_succ, at?_push_next]
    rfl
  rw [hnext]
  refine Option.ext fun owner => ⟨fun h => ?_, fun h => ?_⟩
  · exact (ownerWithin_of_push h).elim id id
  · exact ownerWithin_push _ h

/-- **From a fresh scope every operand has the integer that it has from the parent.** -/
theorem get_push_child (st : ScopeStack) (ref : ScopeRef) :
    (st.push (some ref)).get st.next = st.get ref := by
  have hlookup (name : String) :
      (st.push (some ref)).lookup st.next name = st.lookup ref name := by
    rw [lookup_eq_bind, lookup_eq_bind, owner_push_child]
    cases howner : st.owner ref name with
    | none => rfl
    | some owner =>
      obtain ⟨s, hs, -⟩ := (nearest_of_owner howner).binds
      rw [Option.bind_some, Option.bind_some, binding?, at?_push_of_lt (at?_lt hs), binding?]
  funext v
  cases v with
  | int n => rfl
  | str s => rfl
  | var name => rw [get, get, hlookup]

end ScopeStack
end Showtime
