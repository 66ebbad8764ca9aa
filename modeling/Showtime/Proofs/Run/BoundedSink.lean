/-
# Runs with little room

A buffer with a bound goes along with one without until a write does not fit;
from then on it holds the first bytes of the other, as many as it has room for
(`Buffer.cutShort`).  So a run whose output has a bound is the run without one,
cut short where the room ends (`Showtime.Proofs.Run.CutShort`): it has the same
result if all of the output fits, and else fails with the error of the sink.

The bound of the sink for reports shortens the report and decides nothing
(`bounded_sinks_keep_prefixes`).
-/

import Showtime.Proofs.Run.CutShort
import Showtime.Proofs.Run.Report

namespace Showtime

/-! ### Buffers with and without a bound -/

/-- As much as there is, if that is not more than asked for. -/
theorem extract_zero_of_size_le {bytes : ByteArray} {n : Nat} (h : bytes.size ≤ n) :
    bytes.extract 0 n = bytes := by
  rw [← Nat.max_eq_left h, ByteArray.extract_zero_max_size]

/-- The first bytes are there already when enough bytes are. -/
theorem extract_zero_append_of_le {bytes : ByteArray} {n : Nat} (h : n ≤ bytes.size)
    (more : ByteArray) : (bytes ++ more).extract 0 n = bytes.extract 0 n := by
  rw [ByteArray.extract_append, Nat.sub_eq_zero_of_le h, Nat.zero_sub, ByteArray.extract_same,
    ByteArray.append_empty]

/-- There are no more bytes to take than there are. -/
theorem extract_zero_min (bytes : ByteArray) (n : Nat) :
    bytes.extract 0 n = bytes.extract 0 (min n bytes.size) := by
  rcases Nat.le_total n bytes.size with h | h
  · rw [Nat.min_eq_left h]
  · rw [Nat.min_eq_right h, extract_zero_of_size_le h, ByteArray.extract_zero_size]

namespace Buffer

/-- A buffer that holds these bytes and can be flushed. -/
def holding (limit : Option Nat) (contents : ByteArray) : Buffer :=
  { contents, limit, flushError := none }

/-- An empty buffer that keeps so many bytes. -/
def bounded (limit : Nat) : Buffer := holding (some limit) .empty

/-- Without a bound everything is kept. -/
theorem write_holding_none (contents bytes : ByteArray) :
    Sink.write (holding none contents) bytes = (none, holding none (contents ++ bytes)) := rfl

/-- **A buffer with a bound keeps the first bytes of what is written**, and fails
when that is not all. -/
theorem write_holding_some {limit : Nat} {contents : ByteArray} (h : contents.size ≤ limit)
    (bytes : ByteArray) :
    Sink.write (holding (some limit) contents) bytes =
      (if (contents ++ bytes).size ≤ limit then none else some fullMessage,
        holding (some limit) ((contents ++ bytes).extract 0 limit)) := by
  have hsize : (contents ++ bytes).size = contents.size + bytes.size := ByteArray.size_append
  change Buffer.write _ _ = _
  rw [holding, write]
  split_ifs with hroom hfits hfits
  · rw [holding, extract_zero_of_size_le hfits]
  · omega
  · omega
  · rw [holding, ByteArray.extract_append, extract_zero_of_size_le h, Nat.zero_sub]

/-- All that was written fits: both buffers hold it. -/
def Fits (limit : Nat) (b full : Buffer) : Prop :=
  ∃ contents, contents.size ≤ limit ∧ b = holding (some limit) contents ∧
    full = holding none contents

/-- A write has failed since not all fits: one buffer holds the first bytes of what
the other holds. -/
def Overflows (limit : Nat) (e : RuntimeError) (b full : Buffer) : Prop :=
  e = .io fullMessage ∧ ∃ contents, limit < contents.size ∧
    b = holding (some limit) (contents.extract 0 limit) ∧ full = holding none contents

/-- **A bound on the output cuts a run short.** -/
theorem cutShort (callLimit limit : Nat) :
    CutShort callLimit callLimit (Fits limit) (Overflows limit) where
  le := le_rfl
  tooDeep h := absurd h (Nat.lt_irrefl _)
  write := by
    rintro _ _ bytes ⟨contents, hsize, rfl, rfl⟩
    rw [write_holding_none, write_holding_some hsize]
    by_cases hfits : (contents ++ bytes).size ≤ limit
    · refine .inl ⟨_, by rw [if_pos hfits], _, hfits, ?_, rfl⟩
      rw [extract_zero_of_size_le hfits]
    · exact .inr ⟨_, _, by rw [if_neg hfits], rfl, _, Nat.not_le.1 hfits, rfl, rfl⟩
  goOn := by
    rintro _ _ _ bytes ⟨rfl, contents, hlt, rfl, rfl⟩
    refine ⟨rfl, contents ++ bytes, ?_, ?_, rfl⟩
    · rw [ByteArray.size_append]
      omega
    · rw [extract_zero_append_of_le hlt.le]

end Buffer

/-! ### Runs -/

namespace Interpreter

variable {job : Job}

/-- The entry method ends alike on a buffer with a bound, or that buffer is full. -/
theorem runEntry_bounded (limit : Nat) {fuel : Nat} {st : ScopeStack} {depth : Nat} {r : Ending}
    {m : Machine Buffer}
    (h : runEntry job fuel { scopes := st, depth, out := .unbounded } = .finished r m) :
    ∃ fuel' contents, m = { scopes := st, depth, out := .holding none contents } ∧
      runEntry job fuel' { scopes := st, depth, out := Buffer.bounded limit } =
        .finished (if contents.size ≤ limit then r else .error (.io Buffer.fullMessage))
          { scopes := st, depth, out := .holding (some limit) (contents.extract 0 limit) } := by
  obtain ⟨c, out, hruns, rfl⟩ := runEntry_finished_iff.1 ⟨fuel, h⟩
  have hstart : Buffer.Fits limit (.bounded limit) .unbounded :=
    ⟨.empty, Nat.zero_le limit, rfl, rfl⟩
  have hback {r : Ending} {c : Chain} {out : Buffer}
      (hcut : Runs job.program job.limit depth (.body job.program.main.body)
        ⟨.root ∅, .bounded limit⟩ r ⟨c, out⟩) :
      ∃ fuel', runEntry job fuel' { scopes := st, depth, out := Buffer.bounded limit } =
        .finished r { scopes := st, depth, out } :=
    runEntry_finished_iff.2 ⟨c, out, hcut, rfl⟩
  rcases (Buffer.cutShort job.limit limit).of_runs hruns hstart with
    ⟨_, hcut, contents, hsize, rfl, rfl⟩ | ⟨_, c', _, hcut, rfl, contents, hlt, rfl, rfl⟩
  · obtain ⟨fuel', hentry⟩ := hback hcut
    refine ⟨fuel', contents, rfl, ?_⟩
    rw [if_pos hsize, extract_zero_of_size_le hsize]
    exact hentry
  · obtain ⟨fuel', hentry⟩ := hback hcut
    refine ⟨fuel', contents, rfl, ?_⟩
    rw [if_neg (Nat.not_le.2 hlt)]
    exact hentry

/-- The end of a run whose output can be flushed: of the report so much is kept as
there is room for. -/
theorem conclude_bounded (limit : Nat) (r : Ending) (st : ScopeStack) (depth : Nat)
    (outLimit : Option Nat) (contents : ByteArray) :
    conclude r.error? { scopes := st, depth, out := Buffer.holding outLimit contents }
        (Buffer.bounded limit) =
      (r.map fun _ => (),
        { machine := { scopes := st, depth, out := .holding outLimit contents }
          diag := .holding (some limit) ((reportOf (r.map fun _ => ())).extract 0 limit) }) := by
  cases r with
  | ok flow =>
    have hnothing : (reportOf (.ok ())).extract 0 limit = .empty :=
      extract_zero_of_size_le (Nat.zero_le limit)
    rw [show Except.map _ (Except.ok flow) = .ok () from rfl, hnothing]
    rfl
  | error e =>
    have hreport : report e (Buffer.bounded limit) =
        .holding (some limit) ((reportOf (.error e)).extract 0 limit) := by
      rw [report, Buffer.bounded, Buffer.write_holding_some (Nat.zero_le limit),
        ByteArray.empty_append]
      rfl
    rw [show Except.map _ (Except.error e) = .error e from rfl, ← hreport]
    rfl

end Interpreter

open Interpreter in
/-- **Sinks with a bound keep prefixes.**  Let a run on sinks without a bound end
with result `r`, its output being `written`.  The same run on an output that
keeps `room` bytes and a sink for reports that keeps `reportRoom` bytes ends
too.  Its result is `r` if all of the output fits, and else the error that the
sink is full; the output is as much of `written` as fits, and the report as much
of the line of the result. -/
theorem bounded_sinks_keep_prefixes (job : Job) (room reportRoom : Nat) {fuel : Nat}
    {r : Except RuntimeError Unit} {i : Interpreter Buffer Buffer}
    (h : (fresh Buffer.unbounded Buffer.unbounded).run job fuel = some (r, i)) :
    let written := i.machine.out.contents
    let result := if written.size ≤ room then r else .error (.io "sink full")
    (∃ fuel', ((fresh (Buffer.bounded room) (Buffer.bounded reportRoom)).run job fuel').isSome) ∧
      ∀ fuel' result' i',
        (fresh (Buffer.bounded room) (Buffer.bounded reportRoom)).run job fuel' =
          some (result', i') →
        result' = result ∧
          i'.machine.out.contents = written.extract 0 (min room written.size) ∧
          i'.diag.contents = (reportOf result).extract 0 reportRoom := by
  obtain ⟨rEntry, m, hentry, hconclude⟩ := run_eq_some_iff.1 h
  obtain ⟨fuelCut, contents, rfl, hcut⟩ := runEntry_bounded room hentry
  -- the full run: its result is that of the entry method, its output is `contents`
  have hflush : (Sink.flush (Buffer.holding none contents)).1 = none := rfl
  have hend := conclude_of_neverFails Buffer.neverFails_unbounded .empty 0 hflush rEntry
  rw [show conclude _ _ Buffer.unbounded = (r, i) from hconclude] at hend
  obtain ⟨rfl, hout⟩ := hend
  have hwritten : i.machine.out.contents = contents := congrArg Buffer.contents hout
  -- the run on sinks with a bound
  have hrun := (run_eq_some_iff (i := fresh (Buffer.bounded room) (Buffer.bounded reportRoom))).2
    ⟨_, _, hcut, conclude_bounded reportRoom _ .empty 0 (some room) _⟩
  simp only [hwritten]
  refine ⟨⟨fuelCut, Option.isSome_iff_exists.2 ⟨_, hrun⟩⟩, fun fuel' result' i' h' => ?_⟩
  obtain ⟨rfl, rfl⟩ := Prod.mk.inj (run_unique h' hrun)
  have hresult : (if contents.size ≤ room then rEntry else .error (.io Buffer.fullMessage)).map
      (fun _ => ()) =
        if contents.size ≤ room then rEntry.map (fun _ => ()) else .error (.io "sink full") := by
    split_ifs <;> rfl
  exact ⟨hresult, extract_zero_min contents room, by rw [← hresult]; rfl⟩

/-- The error of a full sink, in words. -/
example : (RuntimeError.io Buffer.fullMessage).message = "IO error: sink full" := rfl

/-- The program `twice` writes ten bytes.  With room for seven the second line is
cut in its middle, and of the report there is the first word. -/
theorem twice_keeps_prefixes :
    ∃ (i : Interpreter Buffer Buffer) (fuel : Nat) (i' : Interpreter Buffer Buffer),
      (Interpreter.fresh Buffer.unbounded Buffer.unbounded).run twice 3 = some (.ok (), i) ∧
      i.machine.out.contents = "tick\ntick\n".toUTF8 ∧
      (Interpreter.fresh (Buffer.bounded 7) (Buffer.bounded 7)).run twice fuel =
        some (.error (.io "sink full"), i') ∧
      i'.machine.out.contents = "tick\nti".toUTF8 ∧ i'.diag.contents = "Runtime".toUTF8 := by
  obtain ⟨i, hrun, hwritten⟩ : ∃ i : Interpreter Buffer Buffer,
      (Interpreter.fresh Buffer.unbounded Buffer.unbounded).run twice 3 = some (.ok (), i) ∧
        i.machine.out.contents = "tick\ntick\n".toUTF8 := ⟨_, rfl, by decide⟩
  obtain ⟨⟨fuel, hsome⟩, hall⟩ := bounded_sinks_keep_prefixes twice 7 7 hrun
  obtain ⟨⟨result, i'⟩, hbounded⟩ := Option.isSome_iff_exists.1 hsome
  obtain ⟨rfl, hout, hdiag⟩ := hall fuel result i' hbounded
  rw [hwritten] at hbounded hout hdiag
  exact ⟨i, fuel, i', hrun, hwritten, hbounded, hout.trans (by decide), hdiag.trans (by decide)⟩

end Showtime
