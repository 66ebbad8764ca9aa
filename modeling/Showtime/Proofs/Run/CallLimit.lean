/-
# The limit on active calls

Of two limits the lower one cuts runs short and does nothing else.

* What ends under the lower limit, other than by exceeding it, never meets the
  higher one and ends in the same way (`Runs.of_limit_le`).
* What exceeds the lower limit has done up to there what it does under the
  higher one, so its output is a prefix (`callLimit_cutShort`).

Under one limit the calls that are active are never more than it, and it is
exceeded exactly by a call that finds so many active (`runEntry_exceeds_iff`).
-/

import Showtime.Proofs.Run.CutShort
import Showtime.Proofs.Run.Moments
import Showtime.Proofs.Run.Report

namespace Showtime

open Eval

variable {σ τ : Type} [Sink σ] [Sink τ] {p : Program} {d d' : Nat}

/-! ### Under a higher limit -/

/-- Where a call does not fail for too many calls, its body does not. -/
theorem Shallow.of_ofBody {r : Ending} (h : Shallow r.ofBody) : Shallow r := by
  cases r with
  | ok flow => exact shallow_ok flow
  | error e => exact fun n hr => h n (congrArg Ending.ofBody hr)

/-- **What does not exceed a limit ends alike under a higher one.** -/
theorem Runs.of_limit_le (hle : d ≤ d') {depth : Nat} {task : Task} {w w' : World σ} {r : Ending}
    (h : Runs p d depth task w r w') (hr : Shallow r) : Runs p d' depth task w r w' := by
  induction h with
  | refuse h => exact .refuse h
  | write h hwrite => exact .write h hwrite
  | failWrite h hwrite => exact .failWrite h hwrite
  | update h => exact .update h
  | giveBack h => exact .giveBack h
  | receive h _ ih => exact .receive h (ih (shallow_ok _))
  | failCall h _ ih => exact .failCall h (ih hr)
  | branch h _ ih => exact .branch h (ih hr)
  | loop h _ ih => exact .loop h (ih hr)
  | nil => exact .nil
  | cons _ _ ih₁ ih₂ => exact .cons (ih₁ (shallow_ok _)) (ih₂ hr)
  | stop _ hstop ih => exact .stop (ih hr) hstop
  | failTest h => exact .failTest h
  | last h => exact .last h
  | round h hn _ _ ih₁ ih₂ => exact .round h hn (ih₁ (shallow_ok _)) (ih₂ hr)
  | leave h hn _ hstop ih => exact .leave h hn (ih hr) hstop
  | tooDeep h => exact absurd rfl (hr d)
  | call h _ ih => exact .call (h.trans_le hle) (ih hr.of_ofBody)

/-- **A lower limit cuts a run short**: where it stops, the other run has written
the same and may go on to write more. -/
theorem callLimit_cutShort (hle : d ≤ d') :
    CutShort d d' Eq (fun _ (out full : σ) => ∃ pieces, full = Sink.writeAll out pieces) where
  le := hle
  tooDeep _ hsame := ⟨[], hsame.symm⟩
  write bytes hsame := .inl ⟨_, by rw [hsame], rfl⟩
  goOn := by
    rintro _ out _ bytes ⟨pieces, rfl⟩
    exact ⟨pieces ++ [bytes], (Sink.writeAll_concat out pieces bytes).symm⟩

/-- Whatever is written comes behind what is shown. -/
theorem Sink.TakesAll.shown_writeAll {shown : σ → ByteArray} {out : σ}
    (h : Sink.TakesAll shown out) (pieces : List ByteArray) :
    ∃ more, shown (Sink.writeAll out pieces) = shown out ++ more := by
  induction pieces generalizing out with
  | nil => exact ⟨.empty, ByteArray.append_empty.symm⟩
  | cons bytes rest ih =>
    obtain ⟨more, hmore⟩ := ih (h.serve [.write bytes])
    exact ⟨bytes ++ more, hmore.trans (by
      rw [← ByteArray.append_assoc, ← h.shown_write bytes]
      rfl)⟩

/-! ### The entry method -/

namespace Interpreter

/-- With a higher limit the entry method runs alike, unless it fails for too many calls.
-/
theorem runEntry_of_limit_le (hle : d ≤ d') {fuel : Nat} {m m' : Machine σ} {r : Ending}
    (h : runEntry { program := p, limit := d } fuel m = .finished r m') (hr : Shallow r) :
    ∃ fuel', runEntry { program := p, limit := d' } fuel' m = .finished r m' := by
  obtain ⟨c, out, hruns, hm⟩ := runEntry_finished_iff.1 ⟨fuel, h⟩
  exact runEntry_finished_iff.2 ⟨c, out, hruns.of_limit_le hle hr, hm⟩

/-- Under the higher limit the entry method writes what it writes under the lower
one, and then perhaps more. -/
theorem runEntry_writes_more (hle : d ≤ d') {fuel fuel' : Nat} {m m₁ m₂ : Machine σ} {r r' : Ending}
    (h : runEntry { program := p, limit := d } fuel m = .finished r m₁)
    (h' : runEntry { program := p, limit := d' } fuel' m = .finished r' m₂) :
    ∃ pieces, m₂.out = Sink.writeAll m₁.out pieces := by
  obtain ⟨c', out', hruns', rfl⟩ := runEntry_finished_iff.1 ⟨fuel', h'⟩
  -- the run under the lower limit is the one that follows
  have hsame {r₁ : Ending} {c : Chain} {out : σ}
      (hcut : Runs p d m.depth (.body p.main.body) ⟨.root ∅, m.out⟩ r₁ ⟨c, out⟩) :
      m₁.out = out := by
    obtain ⟨fuel₁, hentry⟩ : ∃ fuel₁, runEntry { program := p, limit := d } fuel₁ m =
        .finished r₁ { m with out := out } := runEntry_finished_iff.2 ⟨c, out, hcut, rfl⟩
    rw [(runEntry_unique h hentry).2]
  rcases (callLimit_cutShort hle).of_runs hruns' rfl with
    ⟨out, hcut, rfl⟩ | ⟨e, c, out, hcut, hstop⟩
  · exact ⟨[], (hsame hcut).symm⟩
  · rw [hsame hcut]
    exact hstop

/-- A sink that takes all still does so after a run. -/
theorem takesAll_of_runEntry {job : Job} {shown : σ → ByteArray} {fuel : Nat} {m m' : Machine σ}
    {r : Ending} (hout : Sink.TakesAll shown m.out) (h : runEntry job fuel m = .finished r m') :
    Sink.TakesAll shown m'.out := by
  obtain ⟨c, out, hruns, rfl⟩ := runEntry_finished_iff.1 ⟨fuel, h⟩
  exact hruns.out_induction (fun _ bytes hout => hout.serve [.write bytes]) hout

/-- **The limit is exceeded exactly if the run comes to a call that finds so many
active.** -/
theorem runEntry_exceeds_iff {out : σ} {n : Nat} :
    (∃ fuel m, runEntry { program := p, limit := d } fuel { scopes := .empty, depth := 0, out } =
      .finished (.error (.callDepthExceeded n)) m) ↔ n = d ∧ (Moment.start p out).Overruns p d := by
  constructor
  · rintro ⟨fuel, m, h⟩
    obtain ⟨c, out', hruns, -⟩ := runEntry_finished_iff.1 ⟨fuel, h⟩
    exact Moment.overruns_of_runs hruns rfl (ScopeStack.shows_push_none .empty) []
  · rintro ⟨rfl, hoverruns⟩
    obtain ⟨fuel, m, h⟩ := hoverruns.fails
    refine ⟨fuel, Exec.pop ScopeStack.empty.next m, ?_⟩
    rw [runEntry, Exec.withScope_eq]
    exact congrArg (Outcome.map id (Exec.pop ScopeStack.empty.next)) h

/-! ### Whole runs -/

/-- However a run ends, the output is flushed. -/
theorem out_conclude (error : Option RuntimeError) (m : Machine σ) (diag : τ) :
    (conclude error m diag).2.machine.out = (Sink.flush m.out).2 := by
  simp only [conclude, flush]
  split
  · next hflush => rw [hflush]
  · next hflush => rw [hflush]

/-- A run exceeds the limit if the entry method does, since flushing has other
errors. -/
theorem result_exceeds_iff {r : Ending} {reason : Option String} {n : Nat} :
    result r.error? reason = .error (.callDepthExceeded n) ↔ r = .error (.callDepthExceeded n) := by
  constructor
  · intro h
    cases r with
    | error e => exact congrArg _ (Except.error.inj h)
    | ok flow => cases reason <;> cases h
  · rintro rfl
    rfl

/-- A run exceeds the limit exactly if the entry method does. -/
theorem run_exceeds_iff {job : Job} {i : Interpreter σ τ} {fuel n : Nat} :
    (∃ i', i.run job fuel = some (.error (.callDepthExceeded n), i')) ↔
      ∃ m, runEntry job fuel i.machine = .finished (.error (.callDepthExceeded n)) m := by
  constructor
  · rintro ⟨i', h⟩
    obtain ⟨r, m, hentry, hconclude⟩ := run_eq_some_iff.1 h
    obtain rfl := result_exceeds_iff.1 (congrArg Prod.fst hconclude)
    exact ⟨m, hentry⟩
  · rintro ⟨m, hentry⟩
    exact ⟨_, run_eq_some_iff.2 ⟨_, m, hentry, rfl⟩⟩

/-- A run that does not exceed its limit is the run under a higher one. -/
theorem run_of_limit_le (hle : d ≤ d') {i i' : Interpreter σ τ} {fuel : Nat}
    {result : Except RuntimeError Unit} (hresult : Shallow result)
    (h : i.run { program := p, limit := d } fuel = some (result, i')) :
    ∃ fuel', i.run { program := p, limit := d' } fuel' = some (result, i') := by
  obtain ⟨r, m, hentry, hconclude⟩ := run_eq_some_iff.1 h
  have hr : Shallow r := fun n hn =>
    hresult n ((congrArg Prod.fst hconclude).symm.trans (result_exceeds_iff.2 hn))
  obtain ⟨fuel', hentry'⟩ := runEntry_of_limit_le hle hentry hr
  exact ⟨fuel', run_eq_some_iff.2 ⟨r, m, hentry', hconclude⟩⟩

/-- The output of a run is a prefix of the output under a higher limit. -/
theorem shown_run_of_limit_le (hle : d ≤ d') {shown : σ → ByteArray} {i i₁ i₂ : Interpreter σ τ}
    (hout : Sink.TakesAll shown i.machine.out) {fuel fuel' : Nat}
    {result result' : Except RuntimeError Unit}
    (h : i.run { program := p, limit := d } fuel = some (result, i₁))
    (h' : i.run { program := p, limit := d' } fuel' = some (result', i₂)) :
    ∃ more, shown i₂.machine.out = shown i₁.machine.out ++ more := by
  obtain ⟨r₁, m₁, hentry₁, hconclude₁⟩ := run_eq_some_iff.1 h
  obtain ⟨r₂, m₂, hentry₂, hconclude₂⟩ := run_eq_some_iff.1 h'
  obtain ⟨pieces, hpieces⟩ := runEntry_writes_more hle hentry₁ hentry₂
  have htakes : Sink.TakesAll shown m₁.out := takesAll_of_runEntry hout hentry₁
  have hflushed₁ : shown i₁.machine.out = shown m₁.out := by
    rw [← htakes.shown_flush, ← out_conclude r₁.error? m₁ i.diag, hconclude₁]
  have hflushed₂ : shown i₂.machine.out = shown m₂.out := by
    rw [← (takesAll_of_runEntry hout hentry₂).shown_flush, ← out_conclude r₂.error? m₂ i.diag,
      hconclude₂]
  obtain ⟨more, hmore⟩ := htakes.shown_writeAll pieces
  exact ⟨more, by rw [hflushed₂, hpieces, hmore, hflushed₁]⟩

end Interpreter

open Interpreter in
/-- **The limit on active calls only cuts runs short.**  Take two limits and an
output that takes all that is written.

* A run that ends under the lower limit, but not by exceeding it, ends under the
  higher one with the same result and the same sinks.
* If a run exceeds the lower limit and ends under the higher one, its output is a
  prefix of the output there.
* At every moment of a run no more calls are active than the limit.
* A run exceeds the limit, and names it in its error, exactly if a call is
  attempted while so many are active: the method is found, it has as many
  parameters as there are arguments, and the arguments have values. -/
theorem call_limit_only_cuts_short (p : Program) {d d' : Nat} (hle : d ≤ d')
    {shown : σ → ByteArray} {out : σ} (hout : Sink.TakesAll shown out) (diag : τ) :
    (∀ fuel result i, (fresh out diag).run { program := p, limit := d } fuel = some (result, i) →
      (∀ n, result ≠ .error (.callDepthExceeded n)) →
        ∃ fuel', (fresh out diag).run { program := p, limit := d' } fuel' = some (result, i)) ∧
    (∀ fuel n i fuel' result' i',
      (fresh out diag).run { program := p, limit := d } fuel =
        some (.error (.callDepthExceeded n), i) →
      (fresh out diag).run { program := p, limit := d' } fuel' = some (result', i') →
        ∃ more, shown i'.machine.out = shown i.machine.out ++ more) ∧
    (∀ mo, Moment.Reached p d out mo → mo.calls.length ≤ d) ∧
    ∀ n, (∃ fuel i, (fresh out diag).run { program := p, limit := d } fuel =
        some (.error (.callDepthExceeded n), i)) ↔
      n = d ∧ ∃ mo, Moment.Reached p d out mo ∧ mo.Attempts p ∧ mo.calls.length = d := by
  refine ⟨fun fuel result i h hresult => run_of_limit_le hle hresult h,
    fun fuel n i fuel' result' i' h h' => shown_run_of_limit_le hle hout h h',
    fun mo hreached => hreached.counted.le, fun n => ?_⟩
  rw [← Moment.start_overruns_iff, ← runEntry_exceeds_iff]
  exact exists_congr fun fuel => run_exceeds_iff

/-- A method that calls another, each with a line of its own. -/
def nested : Program where
  main := .main [.expression .call [.var "outer"]]
  methods := [
    { name := "outer", params := [], body :=
        [.expression .print [.str "outer"], .expression .call [.var "inner"]] },
    { name := "inner", params := [], body := [.expression .print [.str "inner"]] }]

/-- The limit of one call is exceeded after the first line, with one call active;
with two calls allowed there are both lines. -/
theorem nested_is_cut_short :
    Sink.TakesAll Buffer.contents Buffer.unbounded ∧
      ∃ (i i' : Interpreter Buffer Buffer) (more : ByteArray) (mo : Moment Buffer),
        (Interpreter.fresh Buffer.unbounded Buffer.unbounded).run
            { program := nested, limit := 1 } 3 = some (.error (.callDepthExceeded 1), i) ∧
        (Interpreter.fresh Buffer.unbounded Buffer.unbounded).run
            { program := nested, limit := 2 } 3 = some (.ok (), i') ∧
        i.machine.out.contents = "outer\n".toUTF8 ∧
        i'.machine.out.contents = i.machine.out.contents ++ more ∧
        Moment.Reached nested 1 Buffer.unbounded mo ∧ mo.Attempts nested ∧
        mo.calls.length = 1 := by
  have hout : Sink.TakesAll Buffer.contents Buffer.unbounded := Buffer.takesAll .empty none
  obtain ⟨i, hrun, hwritten⟩ : ∃ i : Interpreter Buffer Buffer,
      (Interpreter.fresh Buffer.unbounded Buffer.unbounded).run
          { program := nested, limit := 1 } 3 = some (.error (.callDepthExceeded 1), i) ∧
        i.machine.out.contents = "outer\n".toUTF8 := ⟨_, rfl, by decide⟩
  obtain ⟨i', hrun'⟩ : ∃ i' : Interpreter Buffer Buffer,
      (Interpreter.fresh Buffer.unbounded Buffer.unbounded).run
          { program := nested, limit := 2 } 3 = some (.ok (), i') := ⟨_, rfl⟩
  obtain ⟨-, hmore, -, hexceeds⟩ :=
    call_limit_only_cuts_short nested (Nat.le_succ 1) hout Buffer.unbounded
  obtain ⟨more, hmore⟩ := hmore 3 1 i 3 _ i' hrun hrun'
  obtain ⟨-, mo, hreached, hattempts, hlength⟩ := (hexceeds 1).1 ⟨3, i, hrun⟩
  exact ⟨hout, i, i', more, mo, hrun, hrun', hwritten, hmore, hreached, hattempts, hlength⟩

end Showtime
