/-
# What a run writes

A transcript is a sink that keeps all that is written to it, piece by piece.  A
sink that never fails (`Sink.NeverFails`) answers as a transcript does, so a run
that writes to it is a run that writes a transcript, and the pieces of the
transcript are what it gets, in order (`runs_writeAll_iff`).
-/

import Showtime.Proofs.Run.Reference

namespace Showtime

/-- A sink that keeps what is written, piece by piece. -/
structure Transcript where
  pieces : List ByteArray

/-- A transcript takes whatever is written. -/
instance : Sink Transcript where
  write t bytes := (none, { pieces := t.pieces ++ [bytes] })
  flush t := (none, t)

/-- The sink after pieces were written to it, one after another. -/
def Sink.writeAll {σ : Type} [Sink σ] (out : σ) (pieces : List ByteArray) : σ :=
  pieces.foldl (fun out bytes => (Sink.write out bytes).2) out

/-- The last piece is written last. -/
theorem Sink.writeAll_concat {σ : Type} [Sink σ] (out : σ) (pieces : List ByteArray)
    (bytes : ByteArray) : Sink.writeAll out (pieces ++ [bytes]) =
      (Sink.write (Sink.writeAll out pieces) bytes).2 :=
  List.foldl_append ..

/-- However much was written to the sink, it takes more, and it can be flushed. -/
structure Sink.NeverFails {σ : Type} [Sink σ] (out : σ) : Prop where
  write : ∀ pieces bytes, (Sink.write (Sink.writeAll out pieces) bytes).1 = none
  flush : ∀ pieces, (Sink.flush (Sink.writeAll out pieces)).1 = none

/-- A buffer without a bound never fails. -/
theorem Buffer.neverFails_unbounded : Sink.NeverFails Buffer.unbounded := by
  have hall (pieces : List ByteArray) : ∃ contents, Sink.writeAll Buffer.unbounded pieces =
      { contents, limit := none, flushError := none } := by
    induction pieces using List.reverseRecOn with
    | nil => exact ⟨.empty, rfl⟩
    | append_singleton pieces bytes ih =>
      obtain ⟨contents, ih⟩ := ih
      exact ⟨contents ++ bytes, by rw [Sink.writeAll_concat, ih]; rfl⟩
  refine ⟨fun pieces bytes => ?_, fun pieces => ?_⟩ <;>
    · obtain ⟨contents, h⟩ := hall pieces
      rw [h]
      rfl

variable {σ ρ : Type} [Sink σ] [Sink ρ] {p : Program} {limit depth : Nat} {task : Task}
  {r : Ending}

/-! ### From one sink to another -/

/-- The same variables, and another sink. -/
def World.map (f : ρ → σ) (w : World ρ) : World σ := ⟨w.chain, f w.out⟩

/-- Writing goes along with a change of sinks. -/
def Sink.Commutes (f : ρ → σ) : Prop :=
  ∀ out bytes, Sink.write (f out) bytes = ((Sink.write out bytes).1, f (Sink.write out bytes).2)

/-- A run with one sink is a run with the other. -/
theorem Runs.map {f : ρ → σ} (hf : Sink.Commutes f) {w w' : World ρ}
    (h : Runs p limit depth task w r w') : Runs p limit depth task (w.map f) r (w'.map f) := by
  induction h with
  | refuse h => exact .refuse h
  | write h hwrite => exact .write h (by rw [hf, hwrite])
  | failWrite h hwrite => exact .failWrite h (by rw [hf, hwrite])
  | update h => exact .update h
  | giveBack h => exact .giveBack h
  | receive h _ ih => exact .receive h ih
  | failCall h _ ih => exact .failCall h ih
  | branch h _ ih => exact .branch h ih
  | loop h _ ih => exact .loop h ih
  | nil => exact .nil
  | cons _ _ ih₁ ih₂ => exact .cons ih₁ ih₂
  | stop _ hr ih => exact .stop ih hr
  | failTest h => exact .failTest h
  | last h => exact .last h
  | round h hn _ _ ih₁ ih₂ => exact .round h hn ih₁ ih₂
  | leave h hn _ hr ih => exact .leave h hn ih hr
  | tooDeep h => exact .tooDeep h
  | call h _ ih => exact .call h ih

/-- A run with the other sink is a run with the one. -/
theorem Runs.of_map {f : ρ → σ} (hf : Sink.Commutes f) {w : World ρ} {v v' : World σ}
    (h : Runs p limit depth task v r v') (hv : v = w.map f) :
    ∃ w', v' = w'.map f ∧ Runs p limit depth task w r w' := by
  -- a run on `σ` is only known to start from an image; each rule finds the world of `ρ`
  -- that it ends in
  induction h generalizing w with
  | refuse h => cases hv; exact ⟨w, rfl, .refuse h⟩
  | write h hwrite =>
    cases hv
    rw [hf, Prod.mk.injEq] at hwrite
    obtain ⟨hnone, rfl⟩ := hwrite
    exact ⟨⟨w.chain, _⟩, rfl, .write h (Prod.ext hnone rfl)⟩
  | failWrite h hwrite =>
    cases hv
    rw [hf, Prod.mk.injEq] at hwrite
    obtain ⟨hsome, rfl⟩ := hwrite
    exact ⟨⟨w.chain, _⟩, rfl, .failWrite h (Prod.ext hsome rfl)⟩
  | @update _ _ _ c' _ h => cases hv; exact ⟨⟨c', w.out⟩, rfl, .update h⟩
  | giveBack h => cases hv; exact ⟨w, rfl, .giveBack h⟩
  | receive h _ ih =>
    cases hv
    obtain ⟨⟨c, out⟩, hw', hcall⟩ := ih rfl
    cases hw'
    exact ⟨⟨_, out⟩, rfl, .receive h hcall⟩
  | failCall h _ ih =>
    cases hv
    obtain ⟨⟨c, out⟩, hw', hcall⟩ := ih rfl
    cases hw'
    exact ⟨⟨_, out⟩, rfl, .failCall h hcall⟩
  | branch h _ ih =>
    cases hv
    obtain ⟨w', rfl, hbody⟩ := ih rfl
    exact ⟨w', rfl, .branch h hbody⟩
  | loop h _ ih =>
    cases hv
    obtain ⟨⟨c, out⟩, hw', hrounds⟩ := ih (w := ⟨w.chain.enter, w.out⟩) rfl
    cases hw'
    exact ⟨⟨_, out⟩, rfl, .loop h hrounds⟩
  | nil => exact ⟨w, hv, .nil⟩
  | cons _ _ ih₁ ih₂ =>
    obtain ⟨w₁, hw₁, hfirst⟩ := ih₁ hv
    obtain ⟨w₂, rfl, hrest⟩ := ih₂ hw₁
    exact ⟨w₂, rfl, .cons hfirst hrest⟩
  | stop _ hr ih =>
    obtain ⟨w', rfl, hfirst⟩ := ih hv
    exact ⟨w', rfl, .stop hfirst hr⟩
  | failTest h => cases hv; exact ⟨w, rfl, .failTest h⟩
  | last h => cases hv; exact ⟨w, rfl, .last h⟩
  | round h hn _ _ ih₁ ih₂ =>
    cases hv
    obtain ⟨w₁, hw₁, hbody⟩ := ih₁ rfl
    obtain ⟨w₂, rfl, hrounds⟩ := ih₂ hw₁
    exact ⟨w₂, rfl, .round h hn hbody hrounds⟩
  | leave h hn _ hr ih =>
    cases hv
    obtain ⟨w', rfl, hbody⟩ := ih rfl
    exact ⟨w', rfl, .leave h hn hbody hr⟩
  | tooDeep h => exact ⟨w, hv, .tooDeep h⟩
  | @call _ method values _ _ _ _ _ h _ ih =>
    cases hv
    obtain ⟨⟨c, out⟩, hw', hbody⟩ :=
      ih (w := ⟨.root (Vars.ofParams method.params values), w.out⟩) rfl
    cases hw'
    exact ⟨⟨w.chain, out⟩, rfl, .call h hbody⟩

/-! ### Sinks that never fail -/

/-- A sink that never fails answers as a transcript of what it gets. -/
theorem Sink.NeverFails.commutes {out : σ} (h : Sink.NeverFails out) :
    Sink.Commutes fun t : Transcript => Sink.writeAll out t.pieces := by
  intro t bytes
  exact Prod.ext (h.write t.pieces bytes) (Sink.writeAll_concat out t.pieces bytes).symm

/-- **A run with a sink that never fails is a run that writes a transcript.** -/
theorem runs_writeAll_iff {out out' : σ} (hout : Sink.NeverFails out) {c c' : Chain} :
    Runs p limit depth task ⟨c, out⟩ r ⟨c', out'⟩ ↔
      ∃ pieces, out' = Sink.writeAll out pieces ∧
        Runs p limit depth task ⟨c, Transcript.mk []⟩ r ⟨c', Transcript.mk pieces⟩ := by
  constructor
  · intro h
    obtain ⟨⟨c'', ⟨pieces⟩⟩, hw, hruns⟩ :=
      h.of_map hout.commutes (w := ⟨c, Transcript.mk []⟩) rfl
    cases hw
    exact ⟨pieces, rfl, hruns⟩
  · rintro ⟨pieces, rfl, h⟩
    exact h.map hout.commutes

end Showtime
