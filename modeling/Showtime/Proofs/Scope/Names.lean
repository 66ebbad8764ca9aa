/-
# Names without their values

Which names the scopes of a chain bind, whatever values the names have
(`Chain.names`).  A change of value keeps them all; a declaration adds a name to
the first scope and keeps those of the others (`Chain.Grows`).

What holds of the names of a chain holds of the scopes of a stack that shows it:
`ScopeStack.Shows.binds_of_names` and `ScopeStack.Shows.binds_above` carry it
over, scope by scope.
-/

import Showtime.Proofs.Scope.View

namespace Showtime

/-! ### Chains -/

namespace Chain

variable {c c' c'' : Chain}

/-- The variables of the first scope. -/
def first : Chain → Vars
  | root vars => vars
  | child vars _ => vars

/-- The names that each scope binds, those of the first scope first. -/
def names : Chain → List (Finset String)
  | root vars => [vars.keys]
  | child vars outer => vars.keys :: outer.names

/-- The names of the innermost scope come first. -/
theorem names_eq_cons (c : Chain) : c.names = c.first.keys :: c.names.tail := by
  cases c <;> rfl

/-- The first scope may bind names that it did not bind before; all other scopes
bind the same. -/
structure Grows (c c' : Chain) : Prop where
  first : ∀ name ∈ c.first, name ∈ c'.first
  outer : c'.names.tail = c.names.tail

/-- A chain with the same names has grown by none. -/
theorem Grows.refl (c : Chain) : c.Grows c := ⟨fun _ h => h, rfl⟩

/-- Two chains that grow one into the other grow together. -/
theorem Grows.trans (h : c.Grows c') (h' : c'.Grows c'') : c.Grows c'' :=
  ⟨fun name hname => h'.first name (h.first name hname), h'.outer.trans h.outer⟩

/-- Another value for a name does not count as growth. -/
theorem Grows.of_names (h : c'.names = c.names) : c.Grows c' := by
  have hfirst : c'.first.keys = c.first.keys := by
    rw [names_eq_cons, names_eq_cons c] at h
    exact (List.cons.inj h).1
  refine ⟨fun name hname => ?_, congrArg List.tail h⟩
  rw [← Finmap.mem_keys, hfirst]
  exact Finmap.mem_keys.2 hname

/-- A name is in sight if some scope binds it. -/
theorem isSome_lookup_iff (name : String) : (c.lookup name).isSome ↔ ∃ ks ∈ c.names, name ∈ ks := by
  induction c with
  | root vars => simp [lookup, names, Finmap.lookup_isSome, Finmap.mem_keys]
  | child vars outer ih =>
    simp [lookup, names, Option.isSome_or, Finmap.lookup_isSome, Finmap.mem_keys, ih]

/-! ### Declaring and changing -/

/-- A declaration adds at most its name, and only to the innermost scope. -/
theorem grows_declare (c : Chain) (name : String) (value : Int64) :
    c.Grows (c.declare name value) := by
  cases c <;> exact ⟨fun other h => Finmap.mem_insert.2 (.inr h), rfl⟩

/-- Where a name has a value already, no name is added. -/
theorem keys_insert_of_mem {vars : Vars} {name : String} (h : name ∈ vars) (value : Int64) :
    (vars.insert name value).keys = vars.keys := by
  ext other
  rw [Finmap.mem_keys, Finmap.mem_keys, Finmap.mem_insert, or_iff_right_iff_imp]
  rintro rfl
  exact h

/-- **A change of value adds no name and takes none away.** -/
theorem names_of_set? {name : String} {value : Int64} (h : c.set? name value = some c') :
    c'.names = c.names := by
  induction c generalizing c' with
  | root vars =>
    rw [set?] at h
    split_ifs at h with hmem
    obtain rfl := Option.some.inj h
    rw [names, names, keys_insert_of_mem hmem]
  | child vars outer ih =>
    rw [set?] at h
    split_ifs at h with hmem
    · obtain rfl := Option.some.inj h
      rw [names, names, keys_insert_of_mem hmem]
    · obtain ⟨outer', houter, rfl⟩ := Option.map_eq_some_iff.1 h
      rw [names, names, ih houter]

/-- A value for a name that is not in sight adds the name to the first scope. -/
theorem grows_assign (c : Chain) (name : String) (value : Int64) :
    c.Grows (c.assign name value) := by
  rw [assign]
  cases hset : c.set? name value with
  | none => exact c.grows_declare name value
  | some c' => exact .of_names (names_of_set? hset)

end Chain

/-! ### Stacks -/

namespace ScopeStack

variable {st st' : ScopeStack} {ref i : ScopeRef} {c c' : Chain}

/-- The scope itself binds the name. -/
def Binds (st : ScopeStack) (ref : ScopeRef) (name : String) : Prop :=
  ∃ s, st.at? ref = some s ∧ (Bindings.find? name s.vars).isSome

/-- A scope binds the names of the first scope of its chain. -/
theorem Shows.binds_iff (h : st.Shows ref c) (name : String) :
    st.Binds ref name ↔ name ∈ c.first := by
  have hvars {parent : Option ScopeRef} {vars : Bindings}
      (hs : st.at? ref = some { parent, vars }) :
      st.Binds ref name ↔ name ∈ Bindings.toVars vars := by
    rw [Bindings.mem_toVars, Binds]
    simp [hs]
  cases h with
  | root h => exact hvars h
  | child h => exact hvars h

/-- **Chains with the same names are shown by scopes with the same names.** -/
theorem Shows.binds_of_names (h : st.Shows ref c) (h' : st'.Shows ref c')
    (parents : ∀ i, (st'.at? i).map Scope.parent = (st.at? i).map Scope.parent)
    (hnames : c'.names = c.names) (hreach : st.Reaches ref i) (name : String) :
    st'.Binds i name ↔ st.Binds i name := by
  induction hreach generalizing c c' with
  | here ref =>
    rw [c'.names_eq_cons, c.names_eq_cons] at hnames
    rw [h.binds_iff, h'.binds_iff, ← Finmap.mem_keys, ← Finmap.mem_keys, (List.cons.inj hnames).1]
  | @up ref parent target s hs hparent above ih =>
    have hsame := parents ref
    rw [hs, Option.map_some, Option.map_eq_some_iff] at hsame
    obtain ⟨s', hs', hparent'⟩ := hsame
    obtain ⟨vars, outer, rfl, -, houter⟩ := h.child_inv hs hparent
    obtain ⟨vars', outer', rfl, -, houter'⟩ := h'.child_inv hs' (hparent'.trans hparent)
    exact ih houter houter' (List.cons.inj hnames).2

/-- **Where a chain grows, the scopes above the first bind the same names.** -/
theorem Shows.binds_above (h : st.Shows ref c) (h' : st'.Shows ref c')
    (parents : ∀ i, (st'.at? i).map Scope.parent = (st.at? i).map Scope.parent)
    (hgrows : c.Grows c') (hreach : st.Reaches ref i) (hne : i ≠ ref) (name : String) :
    st'.Binds i name ↔ st.Binds i name := by
  cases hreach with
  | here => exact absurd rfl hne
  | @up _ parent _ s hs hparent above =>
    have hsame := parents ref
    rw [hs, Option.map_some, Option.map_eq_some_iff] at hsame
    obtain ⟨s', hs', hparent'⟩ := hsame
    obtain ⟨vars, outer, rfl, -, houter⟩ := h.child_inv hs hparent
    obtain ⟨vars', outer', rfl, -, houter'⟩ := h'.child_inv hs' (hparent'.trans hparent)
    exact houter.binds_of_names houter' parents hgrows.outer above name

/-- From scopes that show chains with the same names, the same names are in sight. -/
theorem Shows.contains_of_names (h : st.Shows ref c) (h' : st'.Shows ref c')
    (hnames : c'.names = c.names) (name : String) :
    st'.contains ref name = st.contains ref name := by
  rw [h.contains, h'.contains, Bool.eq_iff_iff, Chain.isSome_lookup_iff, Chain.isSome_lookup_iff,
    hnames]

end ScopeStack
end Showtime
