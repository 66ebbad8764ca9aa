/-
# What a run reports

A run that fails has a line for its error (`reportOf`).  The line is written when
the entry method has ended, before the sinks are flushed, so an error of the
program is always reported, and one of flushing never is:

| entry method | flushing | result | reported |
| --- | --- | --- | --- |
| fails | | its error | that error |
| ends well | goes well | no error | nothing |
| ends well | fails | the error of flushing | nothing |

The last row is the only one in which result and report differ
(`failed_run_is_reported_iff`).
-/

import Showtime.Proofs.Run.Reuse

namespace Showtime

/-! ### Sinks that take everything -/

namespace Sink

variable {τ : Type} [Sink τ] {shown : τ → ByteArray} {diag : τ}

/-- A sink takes whatever is written to it: however it was used before, no write
fails, and the bytes of a write come behind those that the sink shows.  Flushing
may fail, but it shows nothing new. -/
structure TakesAll (shown : τ → ByteArray) (diag : τ) : Prop where
  write : ∀ requests bytes, (Sink.write (serve diag requests) bytes).1 = none ∧
    shown (Sink.write (serve diag requests) bytes).2 = shown (serve diag requests) ++ bytes
  flush : ∀ requests, shown (Sink.flush (serve diag requests)).2 = shown (serve diag requests)

/-- A sink that takes all does so after any requests. -/
theorem TakesAll.serve (h : TakesAll shown diag) (requests : List Request) :
    TakesAll shown (serve diag requests) := by
  refine ⟨fun more bytes => ?_, fun more => ?_⟩ <;> rw [← serve_append]
  · exact h.write _ bytes
  · exact h.flush _

/-- What is written is shown behind the rest. -/
theorem TakesAll.shown_write (h : TakesAll shown diag) (bytes : ByteArray) :
    shown (Sink.write diag bytes).2 = shown diag ++ bytes :=
  (h.write [] bytes).2

/-- Flushing shows nothing new. -/
theorem TakesAll.shown_flush (h : TakesAll shown diag) :
    shown (Sink.flush diag).2 = shown diag :=
  h.flush []

end Sink

/-- A buffer without a bound takes everything, whether it can be flushed or not. -/
theorem Buffer.takesAll (contents : ByteArray) (flushError : Option String) :
    Sink.TakesAll Buffer.contents { contents, limit := none, flushError } := by
  have hall (requests : List Sink.Request) : ∃ contents',
      Sink.serve { contents, limit := none, flushError : Buffer } requests =
        { contents := contents', limit := none, flushError } := by
    induction requests using List.reverseRecOn with
    | nil => exact ⟨contents, rfl⟩
    | append_singleton requests request ih =>
      obtain ⟨contents', ih⟩ := ih
      rw [Sink.serve_append, ih]
      cases request with
      | write bytes => exact ⟨contents' ++ bytes, rfl⟩
      | flush => exact ⟨contents', rfl⟩
  refine ⟨fun requests bytes => ?_, fun requests => ?_⟩ <;>
    obtain ⟨contents', h⟩ := hall requests <;> rw [h]
  · exact ⟨rfl, rfl⟩
  · rfl

/-! ### The report of a run -/

namespace Interpreter

variable {σ τ : Type} [Sink σ] [Sink τ] {job : Job} {shown : τ → ByteArray}

/-- What is to be reported of a result: the line of its error, if it is one. -/
def reportOf : Except RuntimeError Unit → ByteArray
  | .ok () => .empty
  | .error e => ("Runtime error: " ++ e.message ++ "\n").toUTF8

/-- The report of an error always says something. -/
theorem reportOf_error_ne_empty (e : RuntimeError) : reportOf (.error e) ≠ .empty := by
  intro h
  have hsize : (reportOf (.error e)).size = 0 := by rw [h, ByteArray.size_empty]
  simp [reportOf] at hsize

/-- The entry method has ended well, and then flushing failed for this reason. -/
def FlushFails (job : Job) (fuel : Nat) (i : Interpreter σ τ) (reason : String) : Prop :=
  ∃ flow m, runEntry job fuel i.machine = .done flow m ∧
    (flush { machine := m, diag := i.diag }).1 = some reason

/-- Flushing both sinks shows nothing new in the second. -/
theorem shown_flush {i : Interpreter σ τ} (h : Sink.TakesAll shown i.diag) :
    shown (flush i).2.diag = shown i.diag := by
  simp only [flush]
  split
  · rfl
  · exact h.shown_flush

/-- **What is reported is how the entry method has ended.** -/
theorem shown_conclude {diag : τ} (h : Sink.TakesAll shown diag) (r : Ending) (m : Machine σ) :
    shown (conclude r.error? m diag).2.diag = shown diag ++ reportOf (r.map fun _ => ()) := by
  cases r with
  | ok flow =>
    change shown (flush { machine := m, diag }).2.diag = shown diag ++ ByteArray.empty
    rw [ByteArray.append_empty]
    exact shown_flush h
  | error e =>
    have hreport : Sink.TakesAll shown (report e diag) :=
      h.serve [.write (e.render ++ "\n").toUTF8]
    calc shown (conclude (Ending.error? (.error e)) m diag).2.diag
      _ = shown (report e diag) :=
        shown_flush (i := { machine := m, diag := report e diag }) hreport
      _ = shown diag ++ reportOf (.error e) := h.shown_write (e.render ++ "\n").toUTF8

/-- **A failed run is reported unless only flushing has failed.**  Take a sink for
reports that takes all that is written.  A run that fails appends the line of its
error and a run that does not fail appends nothing, except when the entry method
has ended well and flushing has failed: then the run fails for that reason, and
nothing is appended. -/
theorem failed_run_is_reported_iff {i i' : Interpreter σ τ} (hdiag : Sink.TakesAll shown i.diag)
    {fuel : Nat} {result : Except RuntimeError Unit}
    (hrun : i.run job fuel = some (result, i')) :
    (shown i'.diag = shown i.diag ++ reportOf result ↔ ∀ reason, ¬FlushFails job fuel i reason) ∧
      ∀ reason, FlushFails job fuel i reason →
        result = .error (.io reason) ∧ shown i'.diag = shown i.diag := by
  obtain ⟨r, m, hentry, hconclude⟩ := run_eq_some_iff.1 hrun
  have hshown := shown_conclude hdiag r m
  rw [hconclude] at hshown
  cases r with
  | error e =>
    -- an error of the program goes before one of flushing
    obtain rfl : .error e = result := congrArg Prod.fst hconclude
    have hnever (reason : String) : ¬FlushFails job fuel i reason := by
      rintro ⟨flow, m', hdone, -⟩
      cases hentry.symm.trans hdone
    exact ⟨⟨fun _ => hnever, fun _ => hshown⟩, fun reason h => absurd h (hnever reason)⟩
  | ok flow =>
    have hresult : Interpreter.result none (flush { machine := m, diag := i.diag }).1 = result :=
      congrArg Prod.fst hconclude
    have hfails (reason : String) : FlushFails job fuel i reason ↔
        (flush { machine := m, diag := i.diag }).1 = some reason := by
      constructor
      · rintro ⟨flow', m', hdone, hflush⟩
        cases hentry.symm.trans hdone
        exact hflush
      · exact fun hflush => ⟨flow, m, hentry, hflush⟩
    have hsame : shown i'.diag = shown i.diag := hshown.trans ByteArray.append_empty
    simp only [hfails]
    cases hflush : (flush { machine := m, diag := i.diag }).1 with
    | none =>
      rw [hflush] at hresult
      obtain rfl : .ok () = result := hresult
      exact ⟨⟨fun _ => nofun, fun _ => hshown⟩, nofun⟩
    | some reason =>
      rw [hflush] at hresult
      obtain rfl : .error (.io reason) = result := hresult
      refine ⟨⟨fun happended => ?_, fun h => absurd rfl (h reason)⟩, fun reason' h => ?_⟩
      · rw [hsame, ← ByteArray.append_empty (b := shown i.diag), ByteArray.append_assoc,
          ByteArray.append_right_inj, ByteArray.empty_append] at happended
        exact absurd happended.symm (reportOf_error_ne_empty _)
      · obtain rfl := Option.some.inj h
        exact ⟨rfl, hsame⟩

/-- The program that does nothing. -/
def silent : Program := { main := .main [], methods := [] }

/-- A program that prints a variable that it does not have, on a sink that cannot
be flushed: the missing variable is reported, and nothing else. -/
theorem missing_variable_is_reported :
    Sink.TakesAll Buffer.contents Buffer.unbounded ∧
      ∃ i' : Interpreter Buffer Buffer,
        (fresh { Buffer.unbounded with flushError := some "disk full" } Buffer.unbounded).run
            { program := { silent with main := .main [.expression .print [.var "x"]] } } 1 =
          some (.error (.undefinedVariable "x"), i') ∧
        i'.diag.contents = "Runtime error: undefined variable: x\n".toUTF8 := by
  have hdiag : Sink.TakesAll Buffer.contents Buffer.unbounded := Buffer.takesAll .empty none
  obtain ⟨i', hrun⟩ : ∃ i',
      (fresh { Buffer.unbounded with flushError := some "disk full" } Buffer.unbounded).run
          { program := { silent with main := .main [.expression .print [.var "x"]] } } 1 =
        some (.error (.undefinedVariable "x"), i') := ⟨_, rfl⟩
  have hreported := (failed_run_is_reported_iff hdiag hrun).1.2 fun reason hfails => by
    obtain ⟨flow, m, hdone, -⟩ := hfails
    cases hdone
  exact ⟨hdiag, i', hrun, hreported.trans ByteArray.empty_append⟩

/-- **A run that fails without a report.**  The program does nothing and ends
well, the output cannot be flushed, and the line of that error is missing. -/
theorem unflushed_run_is_not_reported :
    Sink.TakesAll Buffer.contents Buffer.unbounded ∧
      ∃ i' : Interpreter Buffer Buffer,
        (fresh { Buffer.unbounded with flushError := some "disk full" } Buffer.unbounded).run
            { program := silent } 1 = some (.error (.io "disk full"), i') ∧
        i'.diag.contents = .empty ∧
        i'.diag.contents ≠ Buffer.unbounded.contents ++ reportOf (.error (.io "disk full")) := by
  refine ⟨Buffer.takesAll .empty none, _, rfl, rfl, ?_⟩
  intro h
  have hempty : ByteArray.empty ++ reportOf (.error (.io "disk full")) = .empty := h.symm
  rw [ByteArray.empty_append] at hempty
  exact reportOf_error_ne_empty _ hempty

end Interpreter
end Showtime
