/-
# Runs that are cut short

Something outside the program may end a run before its time: a limit on active
calls that is lower than another, or a sink that is full.  Until then the run
cannot be told from the full one, and afterwards it does nothing.

`CutShort` says this of one line of output and one call: how the sink of the run
that is cut goes along with the sink of the full one (`Same`), and with which
errors it may stop (`Stop`).  It carries over to whole runs
(`CutShort.of_runs`): of a full run that ends, the other run follows either all
or the part up to the stop.

Two facts about single runs are used on the way: all that a run does to the names
of the chain is adding some to the first scope (`Runs.grows`), so that the chain is
as long as it was, and all that it does to the output is writing
(`Runs.out_induction`).
-/

import Showtime.Proofs.Run.Reading
import Showtime.Proofs.Scope.Names

namespace Showtime

/-! ### The length of a chain -/

namespace Chain

/-- How many scopes there are. -/
def length : Chain → Nat
  | root _ => 1
  | child _ outer => outer.length + 1

/-- There is always an innermost scope. -/
theorem length_pos (c : Chain) : 0 < c.length := by
  cases c with
  | root vars => exact Nat.one_pos
  | child vars outer => exact Nat.succ_pos _

/-- A chain that is longer than another has a scope inside. -/
theorem eq_child_of_length {c outer : Chain} (h : c.length = outer.length + 1) :
    ∃ vars outer', c = .child vars outer' := by
  cases c with
  | root vars =>
    have hpos := outer.length_pos
    rw [length] at h
    omega
  | child vars outer' => exact ⟨vars, outer', rfl⟩

/-- Names are listed scope by scope. -/
theorem length_names (c : Chain) : c.names.length = c.length := by
  induction c with
  | root vars => rfl
  | child vars outer ih => rw [names, List.length_cons, ih, length]

/-- A chain that has grown has the same scopes. -/
theorem Grows.length_eq {c c' : Chain} (h : c.Grows c') : c'.length = c.length := by
  rw [← length_names, ← length_names, c'.names_eq_cons, c.names_eq_cons, List.length_cons,
    List.length_cons, h.outer]

/-! ### Declarations and assignments -/

variable {p : Program} {c c' : Chain}

/-- A value that is received makes a chain grow at most. -/
theorem grows_receive (c : Chain) (value : Int64) (destination : Option String) :
    c.Grows (c.receive value destination) := by
  cases destination with
  | none => exact .refl c
  | some name => exact c.grows_assign name value

/-- Variables change by declarations and assignments. -/
theorem grows_of_update {s : Statement} (h : c.action p s = .ok (.update c')) : c.Grows c' := by
  cases acts_of_action h with
  | declare name value => exact c.grows_declare name value
  | assign hset => exact .of_names (names_of_set? hset)

end Chain

section

variable {σ : Type} [Sink σ] {p : Program} {limit depth : Nat} {task : Task} {w w' : World σ}
  {r : Ending}

/-! ### What a run does to the chain and to the output -/

/-- **A run adds names to the first scope and to no other.** -/
theorem Runs.grows (h : Runs p limit depth task w r w') : w.chain.Grows w'.chain := by
  induction h with
  | update h => exact Chain.grows_of_update h
  | receive => exact Chain.grows_receive _ _ _
  | branch _ _ ih | stop _ _ ih | leave _ _ _ _ ih => exact ih
  -- the scope of the loop is the first of its rounds
  | loop _ _ ih => exact .of_names ih.outer
  | cons _ _ ih₁ ih₂ | round _ _ _ _ ih₁ ih₂ => exact ih₁.trans ih₂
  | _ => exact .refl _

/-- **A run leaves as many scopes as it found.** -/
theorem Runs.length_chain (h : Runs p limit depth task w r w') :
    w'.chain.length = w.chain.length :=
  h.grows.length_eq

/-- A call leaves the chain of its caller alone. -/
theorem Runs.chain_of_call {method : Method} {values : List Int64}
    (h : Runs p limit depth (.call method values) w r w') : w'.chain = w.chain := by
  cases h <;> rfl

/-- **All that a run does to the output is writing.**  What every write keeps, the
run keeps. -/
theorem Runs.out_induction {P : σ → Prop}
    (hwrite : ∀ out bytes, P out → P (Sink.write out bytes).2)
    (h : Runs p limit depth task w r w') (hw : P w.out) : P w'.out := by
  induction h with
  | @write _ _ _ out _ line _ heq | @failWrite _ _ _ out _ line _ _ heq =>
    have hnext := hwrite out (line ++ "\n").toUTF8 hw
    rw [heq] at hnext
    exact hnext
  | receive _ _ ih => exact ih hw
  | failCall _ _ ih => exact ih hw
  | branch _ _ ih => exact ih hw
  | loop _ _ ih => exact ih hw
  | cons _ _ ih₁ ih₂ => exact ih₂ (ih₁ hw)
  | stop _ _ ih => exact ih hw
  | round _ _ _ _ ih₁ ih₂ => exact ih₂ (ih₁ hw)
  | leave _ _ _ _ ih => exact ih hw
  | call _ _ ih => exact ih hw
  | _ => exact hw

end

/-! ### From a full run to a run that is cut -/

variable {σ ρ : Type} [Sink σ] [Sink ρ]

/-- One run goes along with another as long as `Same` holds of their sinks, and
may stop with an error where `Stop` holds.  The full run is the second: it has
the higher limit, and `Stop` still holds when it has written more. -/
structure CutShort (limit limit' : Nat) (Same : σ → ρ → Prop)
    (Stop : RuntimeError → σ → ρ → Prop) : Prop where
  le : limit ≤ limit'
  tooDeep : ∀ {out full}, limit < limit' → Same out full → Stop (.callDepthExceeded limit) out full
  write : ∀ {out full} bytes, Same out full →
    (∃ out', Sink.write out bytes = ((Sink.write full bytes).1, out') ∧
      Same out' (Sink.write full bytes).2) ∨
    ∃ reason out', Sink.write out bytes = (some reason, out') ∧
      Stop (.io reason) out' (Sink.write full bytes).2
  goOn : ∀ {e out full} bytes, Stop e out full → Stop e out (Sink.write full bytes).2

namespace CutShort

variable {limit limit' depth : Nat} {Same : σ → ρ → Prop} {Stop : RuntimeError → σ → ρ → Prop}
  {p : Program} {task : Task} {w w' : World ρ} {r : Ending}

/-- What becomes of the run that is cut when the full run of the task ends so: it
ends in the same way, or it has stopped. -/
def Follows (p : Program) (limit depth : Nat) (Same : σ → ρ → Prop)
    (Stop : RuntimeError → σ → ρ → Prop) (task : Task) (c : Chain) (out : σ) (r : Ending)
    (w' : World ρ) : Prop :=
  (∃ out', Runs p limit depth task ⟨c, out⟩ r ⟨w'.chain, out'⟩ ∧ Same out' w'.out) ∨
    ∃ e c' out', Runs p limit depth task ⟨c, out⟩ (.error e) ⟨c', out'⟩ ∧ Stop e out' w'.out

/-- A run that has stopped has stopped, whatever the full run still does. -/
theorem stop_of_runs (hcut : CutShort limit limit' Same Stop) {e : RuntimeError} {out : σ}
    (h : Runs p limit' depth task w r w') (hstop : Stop e out w.out) : Stop e out w'.out :=
  h.out_induction (fun _ bytes hstop => hcut.goOn bytes hstop) hstop

omit [Sink ρ] in
/-- A task ends as another one that runs as a part of it. -/
theorem Follows.lift {part whole : Task} {c c₁ : Chain} {out out₁ : σ} {r₁ : Ending} {w₁ : World ρ}
    (h : Follows p limit depth Same Stop part c₁ out₁ r₁ w₁) {chain : Chain}
    (hdone : ∀ {out'}, Runs p limit depth part ⟨c₁, out₁⟩ r₁ ⟨w₁.chain, out'⟩ →
      Runs p limit depth whole ⟨c, out⟩ r ⟨chain, out'⟩)
    (hstop : ∀ {e c' out'}, Runs p limit depth part ⟨c₁, out₁⟩ (.error e) ⟨c', out'⟩ →
      ∃ c'', Runs p limit depth whole ⟨c, out⟩ (.error e) ⟨c'', out'⟩) :
    Follows p limit depth Same Stop whole c out r ⟨chain, w₁.out⟩ := by
  rcases h with ⟨out', hruns, hsame⟩ | ⟨e, c', out', hruns, hout⟩
  · exact .inl ⟨out', hdone hruns, hsame⟩
  · obtain ⟨c'', hruns⟩ := hstop hruns
    exact .inr ⟨e, c'', out', hruns, hout⟩

/-- Two tasks one after the other: the run that is cut may stop in either. -/
theorem Follows.seq (hcut : CutShort limit limit' Same Stop) {first second whole : Task}
    {c : Chain} {out : σ} {w₁ : World ρ}
    (h₁ : Follows p limit depth Same Stop first c out (.ok .next) w₁)
    (hsecond : Runs p limit' depth second w₁ r w')
    (h₂ : ∀ {out₁}, Same out₁ w₁.out → Follows p limit depth Same Stop second w₁.chain out₁ r w')
    (hboth : ∀ {out₁ r c₂ out₂}, Runs p limit depth first ⟨c, out⟩ (.ok .next) ⟨w₁.chain, out₁⟩ →
      Runs p limit depth second ⟨w₁.chain, out₁⟩ r ⟨c₂, out₂⟩ →
        Runs p limit depth whole ⟨c, out⟩ r ⟨c₂, out₂⟩)
    (hstop : ∀ {e c₁ out₁}, Runs p limit depth first ⟨c, out⟩ (.error e) ⟨c₁, out₁⟩ →
      Runs p limit depth whole ⟨c, out⟩ (.error e) ⟨c₁, out₁⟩) :
    Follows p limit depth Same Stop whole c out r w' := by
  rcases h₁ with ⟨out₁, hruns₁, hsame₁⟩ | ⟨e, c', out', hruns₁, hout⟩
  · exact (h₂ hsame₁).lift (hboth hruns₁) fun hruns₂ => ⟨_, hboth hruns₁ hruns₂⟩
  · exact .inr ⟨e, c', out', hstop hruns₁, hcut.stop_of_runs hsecond hout⟩

/-- A line that is written, or not. -/
theorem follows_write (hcut : CutShort limit limit' Same Stop) {s : Statement} {c : Chain}
    {line : String} (haction : c.action p s = .ok (.write line)) {out : σ} {full : ρ}
    (hsame : Same out full) {failure : Option String} {full' : ρ}
    (hwrite : Sink.write full (line ++ "\n").toUTF8 = (failure, full')) :
    Follows p limit depth Same Stop (.statement s) c out
      (match failure with
        | none => .ok .next
        | some reason => .error (.io reason)) ⟨c, full'⟩ := by
  have hcases := hcut.write (line ++ "\n").toUTF8 hsame
  rw [hwrite] at hcases
  rcases hcases with ⟨out', hout, hsame'⟩ | ⟨reason, out', hout, hstop⟩
  · cases failure with
    | none => exact .inl ⟨out', .write haction hout, hsame'⟩
    | some reason => exact .inl ⟨out', .failWrite haction hout, hsame'⟩
  · exact .inr ⟨_, c, out', .failWrite haction hout, hstop⟩

/-- Where the full run calls, the run that is cut may have reached its limit. -/
theorem follows_call (hcut : CutShort limit limit' Same Stop) {method : Method}
    {values : List Int64} {c c' : Chain} {out : σ} {full full' : ρ} (hsame : Same out full)
    (hlt : depth < limit')
    (hbody : Runs p limit' (depth + 1) (.body method.body)
      ⟨.root (Vars.ofParams method.params values), full⟩ r ⟨c', full'⟩)
    (h : Follows p limit (depth + 1) Same Stop (.body method.body)
      (.root (Vars.ofParams method.params values)) out r ⟨c', full'⟩) :
    Follows p limit depth Same Stop (.call method values) c out r.ofBody ⟨c, full'⟩ := by
  rcases Nat.lt_or_ge depth limit with hdepth | hdepth
  · rcases h with ⟨out', hruns, hsame'⟩ | ⟨e, c₁, out', hruns, hstop⟩
    · exact .inl ⟨out', .call hdepth hruns, hsame'⟩
    · exact .inr ⟨e, c, out', .call (r := .error e) hdepth hruns, hstop⟩
  · have hstop : Stop (.callDepthExceeded limit) out full :=
      hcut.tooDeep (Nat.lt_of_le_of_lt hdepth hlt) hsame
    have hend : Stop (.callDepthExceeded limit) out full' := hcut.stop_of_runs hbody hstop
    exact .inr ⟨_, c, out, .tooDeep hdepth, hend⟩

/-- Where the full run has too many calls, so has the one that is cut. -/
theorem follows_tooDeep (hcut : CutShort limit limit' Same Stop) {method : Method}
    {values : List Int64} {c : Chain} {out : σ} {full : ρ} (hsame : Same out full)
    (hle : limit' ≤ depth) :
    Follows p limit depth Same Stop (.call method values) c out
      (.error (.callDepthExceeded limit')) ⟨c, full⟩ := by
  have hdepth : limit ≤ depth := hcut.le.trans hle
  rcases hcut.le.eq_or_lt with rfl | hlt
  · exact .inl ⟨out, .tooDeep hdepth, hsame⟩
  · exact .inr ⟨_, c, out, .tooDeep hdepth, hcut.tooDeep hlt hsame⟩

/-- **A run that may be cut follows the full run**, all the way or up to a stop. -/
theorem of_runs (hcut : CutShort limit limit' Same Stop) (h : Runs p limit' depth task w r w')
    {out : σ} (hsame : Same out w.out) :
    Follows p limit depth Same Stop task w.chain out r w' := by
  have herror {e : RuntimeError} : (.error e : Ending) ≠ .ok .next := nofun
  -- a call that stops has left the chain of its caller alone
  have hfail {depth : Nat} {s : Statement} {c c' : Chain} {out out' : σ} {method : Method}
      {values : List Int64} {destination : Option String} {e : RuntimeError}
      (haction : c.action p s = .ok (.call method values destination))
      (hcall : Runs p limit depth (.call method values) ⟨c, out⟩ (.error e) ⟨c', out'⟩) :
      Runs p limit depth (.statement s) ⟨c, out⟩ (.error e) ⟨c', out'⟩ := by
    obtain rfl : c' = c := hcall.chain_of_call
    exact .failCall haction hcall
  induction h generalizing out with
  | refuse h => exact .inl ⟨out, .refuse h, hsame⟩
  | write h hwrite => exact hcut.follows_write h hsame hwrite
  | failWrite h hwrite => exact hcut.follows_write h hsame hwrite
  | update h => exact .inl ⟨out, .update h, hsame⟩
  | giveBack h => exact .inl ⟨out, .giveBack h, hsame⟩
  | receive h _ ih => exact (ih hsame).lift (.receive h) fun hcall => ⟨_, hfail h hcall⟩
  | failCall h _ ih => exact (ih hsame).lift (.failCall h) fun hcall => ⟨_, hfail h hcall⟩
  | branch h _ ih => exact (ih hsame).lift (.branch h) fun hbody => ⟨_, .branch h hbody⟩
  | loop h _ ih =>
    refine (ih hsame).lift (.loop h) fun hrounds => ?_
    obtain ⟨vars, outer, rfl⟩ := Chain.eq_child_of_length hrounds.length_chain
    exact ⟨outer, .loop h hrounds⟩
  | nil => exact .inl ⟨out, .nil, hsame⟩
  | cons _ hrest ih₁ ih₂ => exact .seq hcut (ih₁ hsame) hrest ih₂ .cons (.stop · herror)
  | stop _ hr ih => exact (ih hsame).lift (.stop · hr) fun hfirst => ⟨_, .stop hfirst herror⟩
  | failTest h => exact .inl ⟨out, .failTest h, hsame⟩
  | last h => exact .inl ⟨out, .last h, hsame⟩
  | round h hn _ hrounds ih₁ ih₂ =>
    exact .seq hcut (ih₁ hsame) hrounds ih₂ (.round h hn) (.leave h hn · herror)
  | leave h hn _ hr ih =>
    exact (ih hsame).lift (.leave h hn · hr) fun hbody => ⟨_, .leave h hn hbody herror⟩
  | tooDeep h => exact hcut.follows_tooDeep hsame h
  | call h hbody ih => exact hcut.follows_call hsame h hbody (ih hsame)

end CutShort
end Showtime
