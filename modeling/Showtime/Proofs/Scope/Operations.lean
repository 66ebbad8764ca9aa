/-
# Any operations on a stack of scopes

A stack that was empty and has undergone any operations, of which a `push` names
no parent or one that is there (`ScopeStack.AllAllowed`), is a forest of chains:
every scope comes behind its parent (`Linked.applyAll`).  So a search that simply
goes from parent to parent, with no bound on its steps, comes to an end, and
`owner` is what it finds (`search_iff`).

What an operation does to the values that are seen from any scope of the forest:

| operation | seen from a scope |
| --- | --- |
| `push` | as before, from those that were there |
| `pop` | as before, from those that stay |
| `declare` | the new value, where the nearest scope that now binds the name is this one |
| `set` | the new value, where the nearest scope is the same as from here |

All else is as before (`Rebinds.lookup_of_nearest`, `Rebinds.lookup_of_not_nearest`).
-/

import Showtime.Proofs.Run.Frame
import Showtime.Proofs.Scope.Nearest

namespace Showtime
namespace ScopeStack

variable {st st' : ScopeStack} {ref owner : ScopeRef} {name : String} {found : Option ScopeRef}

/-! ### Searching without a bound -/

/-- A search that goes from a place to its parent, to the parent of that, and so on
ends with this: the first scope that binds the name, or nothing. -/
inductive Search (st : ScopeStack) (name : String) : ScopeRef → Option ScopeRef → Prop
  | gone {ref : ScopeRef} (h : st.at? ref = none) : Search st name ref none
  | here {ref : ScopeRef} (h : st.Binds ref name) : Search st name ref (some ref)
  | top {ref : ScopeRef} {s : Scope} (hs : st.at? ref = some s) (hparent : s.parent = none)
    (hnot : ¬ st.Binds ref name) : Search st name ref none
  | up {ref parent : ScopeRef} {s : Scope} {found : Option ScopeRef} (hs : st.at? ref = some s)
    (hparent : s.parent = some parent) (hnot : ¬ st.Binds ref name)
    (above : Search st name parent found) : Search st name ref found

/-- The search finds nothing but the nearest scope. -/
theorem Search.nearest (h : st.Search name ref (some owner)) : st.Nearest name ref owner := by
  generalize hfound : some owner = found at h
  induction h with
  | gone h => cases hfound
  | here h =>
    obtain rfl := Option.some.inj hfound
    exact .here h
  | top hs hparent hnot => cases hfound
  | up hs hparent hnot _ ih => exact .up hs hparent hnot (ih hfound)

/-- The nearest scope is what the search finds. -/
theorem Nearest.search (h : st.Nearest name ref owner) : st.Search name ref (some owner) := by
  induction h with
  | here h => exact .here h
  | up hs hparent hnot _ ih => exact .up hs hparent hnot ih

/-- A scope that is there and does not find the name does not bind it. -/
theorem not_binds_of_find? {s : Scope} (hs : st.at? ref = some s)
    (hfind : ¬ (Bindings.find? name s.vars).isSome) : ¬ st.Binds ref name := by
  rintro ⟨s', hs', hsome⟩
  obtain rfl := Option.some.inj (hs.symm.trans hs')
  exact hfind hsome

/-- The search ends within as many steps as there are places before its start. -/
theorem Linked.search_ownerWithin (h : st.Linked) {steps : Nat} (hsteps : ref.index < steps) :
    st.Search name ref (st.ownerWithin name steps ref) := by
  induction steps generalizing ref with
  | zero => cases hsteps
  | succ steps ih =>
    rw [ownerWithin_succ]
    cases hs : st.at? ref with
    | none => exact .gone hs
    | some s =>
      rw [Option.bind_some]
      split_ifs with hfind
      · exact .here ⟨s, hs, hfind⟩
      · have hnot := not_binds_of_find? hs hfind
        cases hparent : s.parent with
        | none => exact .top hs hparent hnot
        | some parent =>
          have hlt := (h.parent_lt hs hparent).trans_le (Nat.le_of_lt_succ hsteps)
          exact .up hs hparent hnot (ih hlt)

/-- From a place that is gone nothing is found. -/
theorem owner_of_gone (h : st.at? ref = none) (name : String) : st.owner ref name = none := by
  rw [owner]
  cases st.size with
  | zero => rfl
  | succ steps => rw [ownerWithin_succ, h, Option.bind_none]

/-- **The search always ends, with what `owner` gives.** -/
theorem Linked.search_owner (h : st.Linked) (ref : ScopeRef) (name : String) :
    st.Search name ref (st.owner ref name) := by
  by_cases hlive : ref.index < st.size
  · exact h.search_ownerWithin hlive
  · have hgone : st.at? ref = none := Array.getElem?_eq_none (Nat.le_of_not_lt hlive)
    rw [owner_of_gone hgone]
    exact .gone hgone

/-- A search ends in one way. -/
theorem Search.unique {found' : Option ScopeRef} (h : st.Search name ref found)
    (h' : st.Search name ref found') : found = found' := by
  -- both searches look at one and the same scope, which decides for both
  induction h with
  | gone h =>
    cases h' with
    | gone => rfl
    | here h' =>
      obtain ⟨s, hs, -⟩ := h'
      cases h.symm.trans hs
    | top hs | up hs => cases h.symm.trans hs
  | here h =>
    cases h' with
    | gone h' =>
      obtain ⟨s, hs, -⟩ := h
      cases h'.symm.trans hs
    | here => rfl
    | top _ _ hnot | up _ _ hnot => exact absurd h hnot
  | top hs hparent hnot =>
    cases h' with
    | gone h' => cases h'.symm.trans hs
    | here h' => exact absurd h' hnot
    | top => rfl
    | up hs' hparent' =>
      obtain rfl := Option.some.inj (hs.symm.trans hs')
      cases hparent.symm.trans hparent'
  | up hs hparent hnot _ ih =>
    cases h' with
    | gone h' => cases h'.symm.trans hs
    | here h' => exact absurd h' hnot
    | top hs' hparent' =>
      obtain rfl := Option.some.inj (hs.symm.trans hs')
      cases hparent.symm.trans hparent'
    | up hs' hparent' _ above' =>
      obtain rfl := Option.some.inj (hs.symm.trans hs')
      obtain rfl := Option.some.inj (hparent.symm.trans hparent')
      exact ih above'

/-- The search and `owner` agree. -/
theorem Linked.search_iff (h : st.Linked) :
    st.Search name ref found ↔ found = st.owner ref name := by
  constructor
  · intro hsearch
    exact hsearch.unique (h.search_owner ref name)
  · rintro rfl
    exact h.search_owner ref name

/-- The nearest scope is the owner. -/
theorem Linked.nearest_iff (h : st.Linked) :
    st.Nearest name ref owner ↔ st.owner ref name = some owner := by
  constructor
  · intro hnearest
    exact (h.search_iff.1 hnearest.search).symm
  · exact nearest_of_owner

/-! ### Another value for one binding -/

/-- A scope binds a name exactly if there is a value for it. -/
theorem binds_iff_binding? : st.Binds ref name ↔ (st.binding? ref name).isSome := by
  rw [Binds, binding?]
  cases st.at? ref <;> simp

/-- A search with the same parents ends alike, if the scope that it finds binds the
name in both stacks and the others bind it in the first stack only if they do in the
second. -/
theorem Search.congr (h : st'.Search name ref found)
    (parents : ∀ i, (st'.at? i).map Scope.parent = (st.at? i).map Scope.parent)
    (hbinds : ∀ i, st.Binds i name → st'.Binds i name)
    (hfound : ∀ i ∈ found, st'.Binds i name → st.Binds i name) : st.Search name ref found := by
  induction h with
  | @gone ref h =>
    have hsame := parents ref
    rw [h, Option.map_none, eq_comm, Option.map_eq_none_iff] at hsame
    exact .gone hsame
  | @here ref h => exact .here (hfound ref rfl h)
  | @top ref s hs hparent hnot =>
    have hsame := parents ref
    rw [hs, Option.map_some, eq_comm, Option.map_eq_some_iff] at hsame
    obtain ⟨s', hs', hparent'⟩ := hsame
    exact .top hs' (hparent'.trans hparent) fun hnow => hnot (hbinds ref hnow)
  | @up ref parent s found hs hparent hnot _ ih =>
    have hsame := parents ref
    rw [hs, Option.map_some, eq_comm, Option.map_eq_some_iff] at hsame
    obtain ⟨s', hs', hparent'⟩ := hsame
    exact .up hs' (hparent'.trans hparent) (fun hnow => hnot (hbinds ref hnow)) (ih hfound)

section

variable {value : Int64} {other : String}

/-- The names that are bound are those from before and the one with the new value. -/
theorem Rebinds.binds_iff (h : Rebinds owner name value st st') {i : ScopeRef} :
    st'.Binds i other ↔ st.Binds i other ∨ i = owner ∧ other = name := by
  rw [binds_iff_binding?, binds_iff_binding?, h.binding]
  split_ifs with hnew
  · simp [hnew]
  · simp [hnew]

/-- **Where the search finds the new binding, the value is the new one.** -/
theorem Rebinds.lookup_of_nearest (h : Rebinds owner name value st st') (hlinked : st'.Linked)
    (hnearest : st'.Nearest name ref owner) : st'.lookup ref name = some value := by
  rw [lookup_eq_bind, hlinked.nearest_iff.1 hnearest, Option.bind_some, h.binding,
    if_pos ⟨rfl, rfl⟩]

/-- **Where it does not, the value is as before.** -/
theorem Rebinds.lookup_of_not_nearest (h : Rebinds owner name value st st') (hlinked : st.Linked)
    (hlinked' : st'.Linked) (hnot : ¬ (other = name ∧ st'.Nearest name ref owner)) :
    st'.lookup ref other = st.lookup ref other := by
  have hne (i : ScopeRef) (hi : i ∈ st'.owner ref other) : ¬ (i = owner ∧ other = name) := by
    rintro ⟨rfl, rfl⟩
    exact hnot ⟨rfl, nearest_of_owner hi⟩
  -- the search meets nothing that has changed
  have hsearch : st.Search other ref (st'.owner ref other) := by
    refine (hlinked'.search_owner ref other).congr h.parents
      (fun i hi => h.binds_iff.2 (.inl hi)) fun i hi hbinds => ?_
    exact (h.binds_iff.1 hbinds).resolve_right (hne i hi)
  rw [lookup_eq_bind, lookup_eq_bind, ← hlinked.search_iff.1 hsearch]
  cases howner : st'.owner ref other with
  | none => rfl
  | some i => rw [Option.bind_some, Option.bind_some, h.binding, if_neg (hne i howner)]

/-- A binding that was there already leaves every search as it was. -/
theorem Rebinds.nearest_iff (h : Rebinds owner name value st st') (hbinds : st.Binds owner name) :
    st'.Nearest name ref owner ↔ st.Nearest name ref owner := by
  have hsame (i : ScopeRef) : st'.Binds i name ↔ st.Binds i name := by
    rw [h.binds_iff, or_iff_left_of_imp]
    rintro ⟨rfl, -⟩
    exact hbinds
  constructor
  · intro hnearest
    exact (hnearest.search.congr h.parents (fun i => (hsame i).2) fun i _ => (hsame i).1).nearest
  · intro hnearest
    exact (hnearest.search.congr (fun i => (h.parents i).symm) (fun i => (hsame i).1)
      fun i _ => (hsame i).2).nearest

end

/-! ### One operation -/

/-- An operation that changes a stack. -/
inductive Operation where
  | push (parent : Option ScopeRef)
  | pop (ref : ScopeRef)
  | declare (ref : ScopeRef) (name : String) (value : Int64)
  | set (ref : ScopeRef) (name : String) (value : Int64)
deriving DecidableEq, Repr

/-- The stack afterwards; what fails changes nothing. -/
def apply (st : ScopeStack) : Operation → ScopeStack
  | .push parent => st.push parent
  | .pop ref => st.pop ref
  | .declare ref name value => st.declare ref name value
  | .set ref name value =>
    match st.set ref name value with
    | .ok st' => st'
    | .error _ => st

/-- A fresh scope gets no parent, or one that is there. -/
def Allowed (st : ScopeStack) : Operation → Prop
  | .push parent => ∀ ref ∈ parent, ref.index < st.size
  | _ => True

/-- Discarding scopes leaves the others behind their parents. -/
theorem Linked.pop (h : st.Linked) (ref : ScopeRef) : (st.pop ref).Linked := by
  intro i parent hi
  rw [parents_pop, List.getElem?_take] at hi
  split_ifs at hi
  exact h i parent hi

/-- A declaration moves no scope. -/
theorem Linked.declare (h : st.Linked) (ref : ScopeRef) (name : String) (value : Int64) :
    (st.declare ref name value).Linked :=
  h.congr (parents_declare ..)

/-- **Every operation keeps the scopes behind their parents.** -/
theorem Linked.apply (h : st.Linked) {op : Operation} (hop : st.Allowed op) :
    (st.apply op).Linked := by
  cases op with
  | push parent => exact h.push hop
  | pop ref => exact h.pop ref
  | declare ref name value => exact h.declare ref name value
  | set ref name value =>
    rw [ScopeStack.apply, ScopeStack.set]
    cases st.owner ref name with
    | none => exact h
    | some owner => exact h.declare owner name value

/-- A fresh scope is not seen from those that were there. -/
theorem Linked.lookup_push (h : st.Linked) (hlive : ref.index < st.size)
    (parent : Option ScopeRef) (name : String) :
    (st.push parent).lookup ref name = st.lookup ref name := by
  obtain ⟨c, hshows⟩ := h.exists_shows hlive
  rw [(hshows.push parent).lookup, hshows.lookup]

/-- Discarded scopes were not seen from those before them. -/
theorem Linked.lookup_pop (h : st.Linked) {last : ScopeRef} (hlt : ref.index < last.index)
    (name : String) : (st.pop last).lookup ref name = st.lookup ref name := by
  have hsame (i : ScopeRef) (hi : i.index ≤ ref.index) : (st.pop last).at? i = st.at? i := by
    rw [at?_pop, if_pos (hi.trans_lt hlt)]
  by_cases hlive : ref.index < st.size
  · obtain ⟨c, hshows⟩ := h.exists_shows hlive
    rw [(hshows.congr hsame).lookup, hshows.lookup]
  · have hgone : st.at? ref = none := Array.getElem?_eq_none (Nat.le_of_not_lt hlive)
    rw [lookup_eq_bind, lookup_eq_bind, owner_of_gone hgone,
      owner_of_gone ((hsame ref le_rfl).trans hgone)]
    rfl

/-! ### Any operations -/

/-- The stack after operations, one after the other. -/
def applyAll (st : ScopeStack) : List Operation → ScopeStack
  | [] => st
  | op :: ops => (st.apply op).applyAll ops

/-- Each operation is allowed when its turn comes. -/
def AllAllowed (st : ScopeStack) : List Operation → Prop
  | [] => True
  | op :: ops => st.Allowed op ∧ (st.apply op).AllAllowed ops

/-- Any allowed operations keep the scopes behind their parents. -/
theorem Linked.applyAll (h : st.Linked) {ops : List Operation} (hops : st.AllAllowed ops) :
    (st.applyAll ops).Linked := by
  induction ops generalizing st with
  | nil => exact h
  | cons op ops ih => exact ih (h.apply hops.1) hops.2

/-- **A declaration binds its name in the scope in which it is made.** -/
theorem nearest_declare_self (hlive : ref.index < st.size) (name : String) (value : Int64) :
    (st.declare ref name value).Nearest name ref ref := by
  obtain ⟨s, hs⟩ : ∃ s, st.at? ref = some s := ⟨_, Array.getElem?_eq_getElem hlive⟩
  exact .here ((rebinds_declare hs value).binds_iff.2 (.inr ⟨rfl, rfl⟩))

/-- What a declaration shows from every scope of a stack whose scopes come behind their
parents. -/
theorem Linked.lookup_declare (h : st.Linked) (hlive : owner.index < st.size) (name : String)
    (value : Int64) (ref : ScopeRef) :
    ((st.declare owner name value).Nearest name ref owner →
      (st.declare owner name value).lookup ref name = some value) ∧
    ∀ other, ¬ (other = name ∧ (st.declare owner name value).Nearest name ref owner) →
      (st.declare owner name value).lookup ref other = st.lookup ref other := by
  obtain ⟨s, hs⟩ : ∃ s, st.at? owner = some s := ⟨_, Array.getElem?_eq_getElem hlive⟩
  have hrebinds : Rebinds owner name value st (st.declare owner name value) :=
    rebinds_declare hs value
  have hlinked := h.declare owner name value
  exact ⟨hrebinds.lookup_of_nearest hlinked,
    fun other => hrebinds.lookup_of_not_nearest h hlinked⟩

/-- What a change of value shows from every scope. -/
theorem Linked.lookup_set (h : st.Linked) {value : Int64} (hset : st.set ref name value = .ok st') :
    ∃ owner, st.Nearest name ref owner ∧ ∀ seen,
      (st.Nearest name seen owner → st'.lookup seen name = some value) ∧
      ∀ other, ¬ (other = name ∧ st.Nearest name seen owner) →
        st'.lookup seen other = st.lookup seen other := by
  rw [set] at hset
  cases howner : st.owner ref name with
  | none =>
    rw [howner] at hset
    cases hset
  | some owner =>
    rw [howner] at hset
    obtain rfl := Except.ok.inj hset
    have hnearest := nearest_of_owner howner
    obtain ⟨s, hs, -⟩ := hnearest.binds
    have hsame (seen : ScopeRef) : (st.declare owner name value).Nearest name seen owner ↔
        st.Nearest name seen owner := (rebinds_declare hs value).nearest_iff hnearest.binds
    refine ⟨owner, hnearest, fun seen => ?_⟩
    rw [← hsame seen]
    exact h.lookup_declare (at?_lt hs) name value seen

/-- A value can be changed exactly where there is one. -/
theorem set_eq_ok_iff (st : ScopeStack) (ref : ScopeRef) (name : String) (value : Int64) :
    (∃ st', st.set ref name value = .ok st') ↔ (st.lookup ref name).isSome := by
  rw [lookup_isSome, set]
  cases st.owner ref name <;> simp

/-- A name without a value cannot be set. -/
theorem set_of_lookup_none (h : st.lookup ref name = none) (value : Int64) :
    st.set ref name value = .error (.undefinedVariable name) := by
  have hnone : st.owner ref name = none := by
    rw [← Option.isNone_iff_eq_none, ← Option.isSome_eq_false_iff, ← lookup_isSome, h]
    rfl
  rw [set, hnone]

end ScopeStack

open ScopeStack in
/-- **The stack of scopes is a forest of chains.**  Take any operations on a stack that
was empty, of which a `push` names no parent or one that is there.

* The parent of every scope is there and comes before it.  So the search from any
  place, which goes from parent to parent, ends, with what `owner` gives.
* `push` changes no value that is seen from a scope that was there, and `pop` none
  that is seen from a scope before the discarded one.
* `declare` binds the name in the scope in which it is made, which sees the value from
  then on, and gives the value to the name for those scopes whose nearest scope that
  now binds it is this one.
* `set` succeeds exactly if the name has a value, and gives the new one to those
  scopes whose nearest scope that binds it is the same.  Otherwise it says that the
  name is undefined and changes nothing.
* Neither changes any other value.
* A scope contains a name exactly if the name has a value there. -/
theorem scopes_form_chains (ops : List ScopeStack.Operation)
    (hops : ScopeStack.empty.AllAllowed ops) :
    let st := ScopeStack.empty.applyAll ops
    (∀ ref s parent, st.at? ref = some s → s.parent = some parent →
      parent.index < ref.index ∧ parent.index < st.size) ∧
    (∀ ref name found, st.Search name ref found ↔ found = st.owner ref name) ∧
    (∀ parent ref name, ref.index < st.size →
      (st.push parent).lookup ref name = st.lookup ref name) ∧
    (∀ last ref name, ref.index < last.index →
      (st.pop last).lookup ref name = st.lookup ref name) ∧
    (∀ ref name value, ref.index < st.size →
      let st' := st.declare ref name value
      st'.Nearest name ref ref ∧ st'.lookup ref name = some value ∧
      ∀ seen, (st'.Nearest name seen ref → st'.lookup seen name = some value) ∧
        ∀ other, ¬ (other = name ∧ st'.Nearest name seen ref) →
          st'.lookup seen other = st.lookup seen other) ∧
    (∀ ref name value,
      ((∃ st', st.set ref name value = .ok st') ↔ (st.lookup ref name).isSome) ∧
      (∀ st', st.set ref name value = .ok st' → ∃ owner, st.Nearest name ref owner ∧
        ∀ seen, (st.Nearest name seen owner → st'.lookup seen name = some value) ∧
          ∀ other, ¬ (other = name ∧ st.Nearest name seen owner) →
            st'.lookup seen other = st.lookup seen other) ∧
      (st.lookup ref name = none →
        st.set ref name value = .error (.undefinedVariable name) ∧
          st.apply (.set ref name value) = st)) ∧
    ∀ ref name, st.contains ref name = (st.lookup ref name).isSome := by
  intro st
  have hlinked : st.Linked := linked_empty.applyAll hops
  refine ⟨fun ref s parent hs hparent => ?_, fun ref name found => hlinked.search_iff,
    fun parent ref name hlive => hlinked.lookup_push hlive parent name,
    fun last ref name hlt => hlinked.lookup_pop hlt name,
    fun ref name value hlive => ?_,
    fun ref name value => ⟨st.set_eq_ok_iff ref name value,
      fun st' hset => hlinked.lookup_set hset, fun hnone => ?_⟩,
    fun ref name => (st.lookup_isSome ref name).symm⟩
  · have hlt := hlinked.parent_lt hs hparent
    exact ⟨hlt, hlt.trans (at?_lt hs)⟩
  · have hself := nearest_declare_self hlive name value
    have hseen := hlinked.lookup_declare hlive name value
    exact ⟨hself, (hseen ref).1 hself, hseen⟩
  · have hset := set_of_lookup_none hnone value
    exact ⟨hset, by rw [ScopeStack.apply, hset]⟩

/-- A tree of scopes: the second child of the root takes the place of the first, which
hid the variable of the root, and gets a child of its own and a sibling. -/
def ScopeStack.siblings : List ScopeStack.Operation :=
  [.push none, .declare ⟨0⟩ "x" 1, .push (some ⟨0⟩), .declare ⟨1⟩ "x" 2, .pop ⟨1⟩,
    .push (some ⟨0⟩), .push (some ⟨1⟩), .push (some ⟨0⟩)]

open ScopeStack in
/-- A declaration in the second child is seen there and from below it, and not from its
sibling.
A change of value from the sibling reaches the root, and is seen from everywhere. -/
theorem siblings_form_chains :
    ScopeStack.empty.AllAllowed siblings ∧
      let st := ScopeStack.empty.applyAll siblings
      let st' := st.declare ⟨1⟩ "x" 5
      st'.lookup ⟨1⟩ "x" = some 5 ∧
      (st'.Nearest "x" ⟨2⟩ ⟨1⟩ ∧ st'.lookup ⟨2⟩ "x" = some 5) ∧
      (¬ st'.Nearest "x" ⟨3⟩ ⟨1⟩ ∧ st'.lookup ⟨3⟩ "x" = st.lookup ⟨3⟩ "x") ∧
      ∃ st'', st.set ⟨3⟩ "x" 7 = .ok st'' ∧ st''.lookup ⟨2⟩ "x" = some 7 := by
  have hchild {st : ScopeStack} {i : Nat} (hlive : i < st.size) :
      ∀ ref ∈ some (ScopeRef.mk i), ref.index < st.size := by
    rintro _ ⟨⟩
    exact hlive
  have hops : ScopeStack.empty.AllAllowed siblings :=
    ⟨nofun, trivial, hchild (by decide), trivial, trivial, hchild (by decide), hchild (by decide),
      hchild (by decide), trivial⟩
  obtain ⟨-, -, -, -, hdeclare, hset, -⟩ := scopes_form_chains siblings hops
  have hbelow : ((empty.applyAll siblings).declare ⟨1⟩ "x" 5).Nearest "x" ⟨2⟩ ⟨1⟩ :=
    nearest_of_owner (by decide)
  have hbeside : ¬ ((empty.applyAll siblings).declare ⟨1⟩ "x" 5).Nearest "x" ⟨3⟩ ⟨1⟩ := by
    rw [((linked_empty.applyAll hops).declare ⟨1⟩ "x" 5).nearest_iff]
    decide
  obtain ⟨-, hhere, hseen⟩ := hdeclare ⟨1⟩ "x" 5 (by decide)
  refine ⟨hops, hhere, ⟨hbelow, (hseen ⟨2⟩).1 hbelow⟩,
    ⟨hbeside, (hseen ⟨3⟩).2 "x" fun h => hbeside h.2⟩, ?_⟩
  obtain ⟨hsucceeds, hseen, -⟩ := hset ⟨3⟩ "x" 7
  obtain ⟨st'', hst''⟩ := hsucceeds.2 (by decide)
  obtain ⟨owner, hnearest, hseen⟩ := hseen st'' hst''
  have howner := (linked_empty.applyAll hops).nearest_iff.1 hnearest
  have hsame : (empty.applyAll siblings).owner ⟨2⟩ "x" =
      (empty.applyAll siblings).owner ⟨3⟩ "x" := by decide
  exact ⟨st'', hst'', (hseen ⟨2⟩).1 (nearest_of_owner (hsame.trans howner))⟩

end Showtime
