/-
# What statements leave alone

Statements run in a scope, and all that they can touch is this scope and those
above it.  Of the scopes above they change values only; in the scope itself they
can also declare names.  A loop declares in a scope of its own, which is gone
when the loop is over, whereas the branches of a conditional declare in the
scope of the conditional.

| place | names | values |
| --- | --- | --- |
| the scope itself | more, but after a loop or an assignment the same | may change |
| the scopes above it | the same | may change |
| all other scopes | the same | the same |

The plain semantics says this of the chain (`Runs.grows`), and a machine whose
scopes come behind their parents follows it.  At every moment of a run the scopes
do come behind their parents (`Moment.Reached.linked`).
-/

import Showtime.Proofs.Run.CutShort
import Showtime.Proofs.Run.Moments

namespace Showtime

open Eval

/-! ### Parents come first -/

namespace ScopeStack

variable {st st' : ScopeStack} {ref : ScopeRef}

/-- Every scope comes behind its parent. -/
def Linked (st : ScopeStack) : Prop :=
  ∀ (i : Nat) (parent : ScopeRef), st.parents[i]? = some (some parent) → parent.index < i

/-- Only the parents of scopes matter. -/
theorem Linked.congr (h : st.Linked) (hparents : st'.parents = st.parents) : st'.Linked := by
  intro i parent hi
  exact h i parent (hparents ▸ hi)

/-- There is nothing out of order in an empty stack. -/
theorem linked_empty : empty.Linked := by
  intro i parent hi
  cases hi

/-- A fresh scope may get any scope of the stack for its parent. -/
theorem Linked.push (h : st.Linked) {parent : Option ScopeRef}
    (hparent : ∀ ref ∈ parent, ref.index < st.size) : (st.push parent).Linked := by
  intro i ref hi
  rw [parents_push, List.getElem?_append, length_parents] at hi
  split_ifs at hi with hlt
  · exact h i ref hi
  · rw [List.getElem?_singleton] at hi
    split_ifs at hi
    have hmem : ref ∈ parent := Option.some.inj hi
    exact (hparent ref hmem).trans_le (Nat.le_of_not_lt hlt)

/-- A parent comes before its scope. -/
theorem Linked.parent_lt (h : st.Linked) {s : Scope} {parent : ScopeRef} (hs : st.at? ref = some s)
    (hparent : s.parent = some parent) : parent.index < ref.index := by
  refine h ref.index parent ?_
  simpa [parents, at?] using ⟨s, hs, hparent⟩

/-- Going from parent to parent comes to an end. -/
theorem Linked.exists_shows (h : st.Linked) (hlive : ref.index < st.size) : ∃ c, st.Shows ref c := by
  obtain ⟨i⟩ := ref
  induction i using Nat.strong_induction_on with
  | _ i ih =>
    obtain ⟨⟨parent, vars⟩, hs⟩ : ∃ s, st.at? ⟨i⟩ = some s := ⟨_, Array.getElem?_eq_getElem hlive⟩
    cases parent with
    | none => exact ⟨_, .root hs⟩
    | some parent =>
      have hlt : parent.index < i := h.parent_lt hs rfl
      obtain ⟨outer, houter⟩ := ih parent.index hlt (hlt.trans hlive)
      exact ⟨_, .child hs hlt houter⟩

end ScopeStack

/-! ### The moments of a run -/

namespace Moment

variable {σ : Type} [Sink σ] {p : Program} {limit : Nat}

/-- Every scope of the machine comes behind its parent, and the scope in which the
task runs is there. -/
structure Linked (mo : Moment σ) : Prop where
  scopes : mo.machine.scopes.Linked
  live : mo.scope.index < mo.machine.scopes.size

/-- One moment after another. -/
theorem Leads.linked {mo mo' : Moment σ} (h : Leads p limit mo mo') (hmo : mo.Linked) :
    mo'.Linked := by
  obtain ⟨hscopes, hlive⟩ := hmo
  cases h with
  | rest h | again _ _ h =>
    have hshape := perform_keeps p limit _ _ _ _ (.ok .next) _ h
    exact ⟨hscopes.congr hshape.parents, hshape.size ▸ hlive⟩
  | loop =>
    refine ⟨hscopes.push ?_, ScopeStack.at?_lt (ScopeStack.at?_push_next ..)⟩
    rintro _ ⟨⟩
    exact hlive
  | @enter calls method values ref m =>
    have hpush : (m.scopes.push none).Linked := hscopes.push nofun
    exact ⟨hpush.congr (parents_bindParams ..), (shows_callee method values m).lt_size⟩
  | _ => exact ⟨hscopes, hlive⟩

/-- **At every moment of a run the scopes come behind their parents.** -/
theorem Reached.linked {out : σ} {mo : Moment σ} (h : Reached p limit out mo) : mo.Linked := by
  induction h with
  | refl => exact ⟨ScopeStack.linked_empty.push nofun, Nat.one_pos⟩
  | tail _ hlast ih => exact hlast.linked ih

end Moment

/-- The machine comes into this state in a run of the program, at the start or at
the end of a task. -/
def Machine.Reachable {σ : Type} [Sink σ] (p : Program) (limit : Nat) (m : Machine σ) : Prop :=
  ∃ out mo, Moment.Reached p limit out mo ∧ (m = mo.machine ∨
    ∃ fuel r, perform p limit fuel mo.scope mo.task mo.machine = .finished r m)

/-- In every state of a run each scope comes behind its parent. -/
theorem Machine.Reachable.linked {σ : Type} [Sink σ] {p : Program} {limit : Nat} {m : Machine σ}
    (h : m.Reachable p limit) : m.scopes.Linked := by
  obtain ⟨out, mo, hreached, rfl | ⟨fuel, r, hdone⟩⟩ := h
  · exact hreached.linked.scopes
  · exact hreached.linked.scopes.congr (perform_keeps p limit fuel _ _ _ r m hdone).parents

/-! ### Names along a run -/

/-- An assignment writes to a name that has a value already. -/
theorem Chain.names_of_assignment {p : Program} {c c' : Chain} {args : List Value}
    {body : List Statement} (h : c.action p (.block .assignment args body) = .ok (.update c')) :
    c'.names = c.names := by
  obtain ⟨name, -, h⟩ := bind_eq_ok h
  obtain ⟨n, -, h⟩ := bind_eq_ok h
  obtain ⟨c₁, hset, h⟩ := bind_eq_ok h
  obtain rfl := Action.update.inj (Except.ok.inj h)
  exact names_of_set? (set_eq_ok hset)

/-- **A loop adds no name, and neither does an assignment.** -/
theorem Runs.names_of_block {σ : Type} [Sink σ] {p : Program} {limit depth : Nat}
    {kind : BlockKind} {args : List Value} {body : List Statement} {w w' : World σ} {r : Ending}
    (hkind : kind = .loop ∨ kind = .assignment)
    (h : Runs p limit depth (.statement (.block kind args body)) w r w') :
    w'.chain.names = w.chain.names := by
  cases h with
  | update haction =>
    rcases hkind with rfl | rfl
    · obtain ⟨test, -, haction⟩ := bind_eq_ok haction
      cases haction
    · exact Chain.names_of_assignment haction
  | receive haction =>
    cases Chain.acts_of_action haction with
    | call hcalls => cases hcalls
  | branch haction =>
    cases Chain.acts_of_action haction
    rcases hkind with hkind | hkind <;> cases hkind
  -- what the rounds declare goes to the scope of the loop
  | loop _ hrounds => exact hrounds.grows.outer
  | _ => rfl

/-! ### Scopes along a run -/

/-- Nothing but the scope at a place and those above it has changed; those above
bind the same names, and the scope itself has lost none. -/
structure ScopeStack.Framed (ref : ScopeRef) (st st' : ScopeStack) : Prop
    extends ChangesWithin ref st st' where
  above : ∀ i, st.Reaches ref i → i ≠ ref → ∀ name, st'.Binds i name ↔ st.Binds i name
  own : ∀ name, st.Binds ref name → st'.Binds ref name

namespace Eval

variable {σ : Type} [Sink σ] {p : Program} {limit callFuel fuel : Nat} {ref : ScopeRef} {c : Chain}
  {m m' : Machine σ} {r : Ending}

/-- **Statements touch the chain of their scope only.** -/
theorem runStatements_framed {statements : List Statement} (hshows : m.scopes.Shows ref c)
    (h : runStatements p (runMethod p limit callFuel) fuel ref statements m = .finished r m') :
    ScopeStack.Framed ref m.scopes m'.scopes := by
  obtain ⟨c', hruns, hshows', hwithin, -⟩ :=
    runStatements_sound (runMethod_sound callFuel) fuel ref statements hshows h
  refine ⟨hwithin, fun i hreach hne name => ?_, fun name hname => ?_⟩
  · exact hshows.binds_above hshows' hwithin.parents hruns.grows hreach hne name
  · exact (hshows'.binds_iff name).2 (hruns.grows.first name ((hshows.binds_iff name).1 hname))

/-- A list of one statement runs as the statement does. -/
theorem runStatement_of_singleton {invoke : Invoke σ} {s : Statement}
    (h : runStatements p invoke fuel ref [s] m = .finished r m') :
    runStatement p invoke fuel ref s m = .finished r m' := by
  rw [runStatements_cons] at h
  rcases Exec.andThen_cases h with ⟨m₁, hnext, hrest⟩ | ⟨hstop, -⟩
  · rw [runStatements, Exec.pure_apply, ← Outcome.finished_ok, Outcome.finished_inj] at hrest
    obtain ⟨rfl, rfl⟩ := hrest
    exact hnext
  · exact hstop

/-- **After a loop or an assignment the scope binds what it bound before.** -/
theorem runStatements_block_names {kind : BlockKind} {args : List Value} {body : List Statement}
    (hkind : kind = .loop ∨ kind = .assignment) (hshows : m.scopes.Shows ref c)
    (h : runStatements p (runMethod p limit callFuel) fuel ref [.block kind args body] m =
      .finished r m') (name : String) :
    (m'.scopes.Binds ref name ↔ m.scopes.Binds ref name) ∧
      m'.scopes.contains ref name = m.scopes.contains ref name := by
  obtain ⟨c', hruns, hshows', hwithin, -⟩ :=
    runStatement_sound (runMethod_sound callFuel) fuel ref _ hshows (runStatement_of_singleton h)
  have hnames : c'.names = c.names := hruns.names_of_block hkind
  exact ⟨hshows.binds_of_names hshows' hwithin.parents hnames (.here ref) name,
    hshows.contains_of_names hshows' hnames name⟩

/-- When the first statements have fallen through, the others go on. -/
theorem runStatements_append_of_next {invoke : Invoke σ} {before after : List Statement}
    {m₁ : Machine σ} (h : runStatements p invoke fuel ref before m = .done .next m₁) :
    runStatements p invoke fuel ref (before ++ after) m =
      runStatements p invoke fuel ref after m₁ := by
  induction before generalizing m with
  | nil =>
    rw [runStatements, Exec.pure_apply, Outcome.done.injEq] at h
    rw [List.nil_append, h.2]
  | cons s rest ih =>
    rw [runStatements_cons] at h
    rcases Exec.andThen_cases (r := .ok .next) h with ⟨m₂, hfirst, hrest⟩ | ⟨-, hr⟩
    · rw [List.cons_append, runStatements_cons, Exec.andThen_next hfirst]
      exact ih hrest
    · exact absurd rfl hr

/-- **What a branch has declared is there after the conditional.** -/
theorem runStatements_branch_names {v : Value} {args : List Value} {n : Int64}
    {body before after : List Statement} {m₁ : Machine σ} (hshows : m.scopes.Shows ref c)
    (hv : m.scopes.get ref v = .ok n) (hchosen : chosenBranch n body = some (before ++ after))
    (hbefore : runStatements p (runMethod p limit callFuel) fuel ref before m = .done .next m₁)
    (h : runStatements p (runMethod p limit callFuel) fuel ref
      [.block .conditional (v :: args) body] m = .finished r m')
    {name : String} (hname : m₁.scopes.Binds ref name) : m'.scopes.Binds ref name := by
  obtain ⟨c₁, -, hshows₁, -, -⟩ :=
    runStatements_sound (runMethod_sound callFuel) fuel ref before (r := .ok .next) hshows hbefore
  have h := runStatement_of_singleton h
  rw [runStatement_chosen hv hchosen, runStatements_append_of_next hbefore] at h
  exact (runStatements_framed hshows₁ h).own name hname

end Eval

/-- **Statements touch only the chain of their scope.**  Take any state of a run, a
scope that is there, and statements that run in it to any end: the last one, a
return or an error.

* Scopes that are neither this one nor above it are as before, those above it bind
  the same names, and the scope itself binds all that it bound.
* After a single loop or assignment the scope binds nothing else, so no name is in
  sight that was not.
* What the chosen branch of a conditional has declared, up to any statement of it,
  is still there after the conditional. -/
theorem statements_touch_own_chain {σ : Type} [Sink σ] (p : Program) (limit : Nat)
    {m : Machine σ} (hm : m.Reachable p limit) (ref : ScopeRef) (hlive : ref.index < m.scopes.size)
    (callFuel fuel : Nat) (statements : List Statement) {r : Ending} {m' : Machine σ}
    (h : runStatements p (runMethod p limit callFuel) fuel ref statements m = .finished r m') :
    ScopeStack.Framed ref m.scopes m'.scopes ∧
    (∀ kind args body, kind = .loop ∨ kind = .assignment →
      statements = [.block kind args body] → ∀ name,
        (m'.scopes.Binds ref name ↔ m.scopes.Binds ref name) ∧
          m'.scopes.contains ref name = m.scopes.contains ref name) ∧
    ∀ v args body n before after m₁, statements = [.block .conditional (v :: args) body] →
      m.scopes.get ref v = .ok n → chosenBranch n body = some (before ++ after) →
      runStatements p (runMethod p limit callFuel) fuel ref before m = .done .next m₁ →
        ∀ name, m₁.scopes.Binds ref name → m'.scopes.Binds ref name := by
  obtain ⟨c, hshows⟩ := hm.linked.exists_shows hlive
  refine ⟨runStatements_framed hshows h, ?_, ?_⟩
  · rintro kind args body hkind rfl
    exact runStatements_block_names hkind hshows h
  · rintro v args body n before after m₁ rfl hv hchosen hbefore name
    exact runStatements_branch_names hshows hv hchosen hbefore h

/-- A loop that declares a name, and sets a variable of a scope above to zero. -/
def Statement.countdown : Statement :=
  .block .loop [.var "x"] [.expression .declare [.var "t", .int 5],
    .block .assignment [.var "x"] [.expression .firstOperand [.int 0]]]

/-- The loop stands in another loop. -/
def Program.countdown : Program where
  main := .main [.expression .declare [.var "x", .int 1], .block .loop [.var "x"] [.countdown]]
  methods := []

/-- When the inner loop is over, the variable that it shares with the entry method
has another value, and the name that it has declared is not in sight. -/
theorem countdown_touches_own_chain :
    let m : Machine Buffer := { scopes := ⟨#[{ parent := none, vars := [("x", 1)] },
      { parent := some ⟨0⟩, vars := [] }]⟩, depth := 0, out := .unbounded }
    m.Reachable .countdown 1 ∧
      ∃ m', runStatements .countdown (runMethod .countdown 1 1) 2 ⟨1⟩ [.countdown] m =
          .finished (.ok .next) m' ∧
        m'.scopes.lookup ⟨1⟩ "x" = some 0 ∧ ScopeStack.Framed ⟨1⟩ m.scopes m'.scopes ∧
        m'.scopes.contains ⟨1⟩ "t" = false := by
  intro m
  have hm : m.Reachable .countdown 1 := by
    have hdeclare : perform .countdown 1 0 ⟨0⟩
        (.statement (.expression .declare [.var "x", .int 1]))
        (Moment.start .countdown Buffer.unbounded).machine = .done .next _ := rfl
    exact ⟨_, _, .tail (.tail (.tail .refl (.rest hdeclare)) .first) .loop, .inl rfl⟩
  refine ⟨hm, _, rfl, rfl, ?_⟩
  obtain ⟨hframed, hloop, -⟩ :=
    statements_touch_own_chain .countdown 1 hm ⟨1⟩ (by decide) 1 2 [.countdown]
      (r := .ok .next) rfl
  exact ⟨hframed, (hloop .loop _ _ (.inl rfl) rfl "t").2⟩

end Showtime
