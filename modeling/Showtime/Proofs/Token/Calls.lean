/-
# Two ways to ask for the next token

One lexer can be asked by `scan`, which passes a fault and goes on, and by `pull`,
which ends the text at the first fault.  `Lexer.answers` are the answers to a list
of calls that mixes the two, and `Lexer.behind` is the lexer afterwards.

A call answers with what `scan` finds, in its own words (`answer_call`).  What it
leaves behind depends on the answer:

| answer | the lexer behind it | for ever after |
| --- | --- | --- |
| a fault, to `pull` | `giveUp`, whatever was read before | `behind_of_failedPull` |
| the end | one with no text ahead | `rest_behind_of_isEnd` |
| anything else | the one behind `scan` | `behind_of_no_failedPull` |
-/

import Showtime.Proofs.Token.Step

namespace Showtime
namespace Lexer

/-! ### Calls and answers -/

/-- A way to ask for the next token. -/
inductive Call where
  | scan
  | pull
deriving DecidableEq, Repr

/-- What a call answers. -/
inductive Answer where
  | scanned (f : Found)
  | pulled (item : Option (Except LexError Lexeme))

namespace Answer

/-- A fault, and the last one: the text ends with it. -/
def isFailedPull : Answer → Bool
  | pulled (some (.error _)) => true
  | _ => false

/-- The end of the text. -/
def isEnd : Answer → Bool
  | scanned f => !f.isPiece
  | pulled item => item.isNone

end Answer

/-- What was found, with nothing for the end. -/
def Found.item : Found → Option (Except LexError Lexeme)
  | token l => some (.ok l)
  | error e => some (.error e)
  | eof _ => none

/-- How a call words what was found. -/
def Call.answer : Call → Found → Answer
  | scan, f => .scanned f
  | pull, f => .pulled f.item

/-- Asks once. -/
def call (lx : Lexer) : Call → Answer × Lexer
  | .scan => (.scanned lx.scan.1, lx.scan.2)
  | .pull => (.pulled lx.pull.1, lx.pull.2)

/-- The answers to calls, one after the other. -/
def answers (lx : Lexer) : List Call → List Answer
  | [] => []
  | c :: cs => (lx.call c).1 :: (lx.call c).2.answers cs

/-- The lexer behind calls. -/
def behind (lx : Lexer) : List Call → Lexer
  | [] => lx
  | c :: cs => (lx.call c).2.behind cs

/-! ### One call -/

/-- An answer is the end exactly if nothing was found. -/
@[simp]
theorem isEnd_answer (c : Call) (f : Found) : (c.answer f).isEnd = !f.isPiece := by
  cases c <;> cases f <;> rfl

section

variable (lx : Lexer) (c : Call)

/-- A reader that stops at the first fault scans, and gives up behind a fault. -/
theorem pull_eq : lx.pull = (lx.scan.1.item,
    if (Answer.pulled lx.scan.1.item).isFailedPull then lx.scan.2.giveUp else lx.scan.2) := by
  rw [pull]
  rcases lx.scan with ⟨⟨l⟩ | ⟨e⟩ | ⟨span⟩, next⟩ <;> rfl

/-- **Every call answers with what `scan` finds.** -/
theorem answer_call : (lx.call c).1 = c.answer lx.scan.1 := by
  cases c with
  | scan => rfl
  | pull => exact congrArg Answer.pulled (congrArg Prod.fst lx.pull_eq)

/-- **A call goes where `scan` goes**, unless a fault ends the text. -/
theorem next_call : (lx.call c).2 =
    if (lx.call c).1.isFailedPull then lx.scan.2.giveUp else lx.scan.2 := by
  cases c with
  | scan => rfl
  | pull =>
    rw [answer_call]
    exact congrArg Prod.snd lx.pull_eq

/-- Where the text ends does not change. -/
theorem giveUp_scan : lx.scan.2.giveUp = lx.giveUp := by
  -- giving up keeps of the lexer only the offset of the end
  have hoffset := congrArg Place.offset lx.place_scan
  rw [Place.offset_after, Place.offset_after] at hoffset
  exact congrArg (fun offset => { ofChars [] with offset }) hoffset

/-- Giving up behind a call is giving up before it. -/
theorem giveUp_call : (lx.call c).2.giveUp = lx.giveUp := by
  rw [next_call]
  split
  · rw [giveUp_scan]
    rfl
  · exact lx.giveUp_scan

end

section

variable {lx : Lexer} {c : Call}

/-- Every call but a failed one goes on behind what it has found. -/
theorem next_call_of_not_failedPull (h : (lx.call c).1.isFailedPull = false) :
    (lx.call c).2 = lx.scan.2 := by
  rw [next_call, h]
  rfl

/-- Behind a fault that ends the text. -/
theorem next_call_of_failedPull (h : (lx.call c).1.isFailedPull = true) :
    (lx.call c).2 = lx.giveUp := by
  rw [next_call, if_pos h, giveUp_scan]

/-- Behind the text there is nothing but the end. -/
theorem scan_of_rest_nil (h : lx.rest = []) : lx.scan = (.eof (lx.spanAhead 0), lx) := by
  have hall : ∀ c ∈ lx.rest, isSeparator c = true := by
    rw [h]
    exact fun _ hc => absurd hc List.not_mem_nil
  have hpass : lx.pass lx.rest [] = lx := by
    rw [h]
    exact (congrArg (lx.pass []) h.symm).trans (pass_nil lx)
  rw [scan_of_separators hall, hpass]

/-- **Where no text is ahead, every call reports the end and changes nothing.** -/
theorem call_of_rest_nil (h : lx.rest = []) (c : Call) :
    lx.call c = (c.answer (.eof (lx.spanAhead 0)), lx) := by
  have hscan := scan_of_rest_nil h
  have hanswer := lx.answer_call c
  have hnext := lx.next_call c
  rw [hanswer, hscan] at hnext
  rw [hscan] at hanswer
  refine Prod.ext hanswer (hnext.trans ?_)
  cases c <;> rfl

/-- Behind the end no text is ahead. -/
theorem rest_call_of_isEnd (h : (lx.call c).1.isEnd = true) : (lx.call c).2.rest = [] := by
  rw [answer_call, isEnd_answer, Bool.not_eq_true'] at h
  have hscan := scan_of_separators ((isPiece_scan_eq_false_iff lx).1 h)
  rw [next_call, hscan]
  split <;> rfl

end

/-! ### Any calls -/

section

variable {lx : Lexer} {cs : List Call}

/-- At the end of the text no call goes further. -/
theorem behind_of_rest_nil (h : lx.rest = []) (cs : List Call) : lx.behind cs = lx := by
  induction cs with
  | nil => rfl
  | cons c cs ih => rw [behind, call_of_rest_nil h, ih]

/-- **Calls go where as many `scan`s go**, as long as no fault has ended the text. -/
theorem behind_of_no_failedPull (h : ∀ a ∈ lx.answers cs, a.isFailedPull = false) :
    lx.behind cs = lx.behind (List.replicate cs.length .scan) := by
  induction cs generalizing lx with
  | nil => rfl
  | cons c cs ih =>
    obtain ⟨hfirst, hrest⟩ := List.forall_mem_cons.1 h
    rw [next_call_of_not_failedPull hfirst] at hrest
    rw [behind, next_call_of_not_failedPull hfirst, ih hrest]
    rfl

/-- The next call also answers as the next `scan` does, with a fault that ends
the text at worst. -/
theorem answers_of_no_failedPull (h : ∀ a ∈ lx.answers cs, a.isFailedPull = false) (c : Call) :
    lx.answers (cs ++ [c]) = List.zipWith Call.answer (cs ++ [c]) (lx.scans (cs.length + 1)) := by
  induction cs generalizing lx with
  | nil => exact congrArg (fun a => [a]) (lx.answer_call c)
  | cons d cs ih =>
    obtain ⟨hfirst, hrest⟩ := List.forall_mem_cons.1 h
    rw [next_call_of_not_failedPull hfirst] at hrest
    rw [List.cons_append, answers, next_call_of_not_failedPull hfirst, ih hrest, answer_call]
    rfl

/-- **A fault that ends the text does so for good.** -/
theorem behind_of_failedPull {a : Answer} (ha : a ∈ lx.answers cs)
    (hfailed : a.isFailedPull = true) : lx.behind cs = lx.giveUp := by
  induction cs generalizing lx with
  | nil => cases ha
  | cons c cs ih =>
    rcases List.mem_cons.1 ha with rfl | ha
    · rw [behind, next_call_of_failedPull hfailed]
      exact behind_of_rest_nil rfl cs
    · rw [behind, ih ha, giveUp_call]

/-- **The end is the end for good.** -/
theorem rest_behind_of_isEnd {a : Answer} (ha : a ∈ lx.answers cs) (hend : a.isEnd = true) :
    (lx.behind cs).rest = [] := by
  induction cs generalizing lx with
  | nil => cases ha
  | cons c cs ih =>
    rcases List.mem_cons.1 ha with rfl | ha
    · have hnil := rest_call_of_isEnd hend
      rw [behind, behind_of_rest_nil hnil, hnil]
    · exact ih ha

end

/-! ### Whole texts -/

/-- What stops a whole text: the end of it, or a fault. -/
def Found.Stops (fault : Option LexError) : Found → Prop
  | token _ => False
  | error e => fault = some e
  | eof _ => fault = none

/-- A whole text is what `scan` finds, up to what stops it. -/
theorem scans_stream (lx : Lexer) :
    ∃ last, lx.scans (lx.stream.lexemes.length + 1) = lx.stream.lexemes.map .token ++ [last] ∧
      last.Stops lx.stream.fault := by
  fun_induction stream lx with
  | case1 lx l next hscan tail ih =>
    obtain ⟨last, hscans, hstops⟩ := ih
    refine ⟨last, ?_, hstops⟩
    rw [List.length_cons, scans, hscan, hscans]
    rfl
  | case2 lx e next hscan => exact ⟨.error e, by rw [List.length_nil, scans, hscan]; rfl, rfl⟩
  | case3 lx span next hscan => exact ⟨.eof span, by rw [List.length_nil, scans, hscan]; rfl, rfl⟩

/-- However it is asked, a lexer answers with its tokens and with what stops them. -/
theorem answers_of_scans {lx : Lexer} {ls : List Lexeme} {last : Found} {cs : List Call}
    (hscans : lx.scans (ls.length + 1) = ls.map .token ++ [last])
    (hlength : cs.length = ls.length + 1) :
    lx.answers cs = List.zipWith Call.answer cs (ls.map .token ++ [last]) := by
  induction ls generalizing lx cs with
  | nil =>
    obtain ⟨c, rfl⟩ := List.length_eq_one_iff.1 hlength
    rw [← hscans]
    exact congrArg (fun a => [a]) (lx.answer_call c)
  | cons l ls ih =>
    obtain ⟨c, cs, rfl⟩ := List.exists_cons_of_length_eq_add_one hlength
    obtain ⟨htoken, hrest⟩ := List.cons.inj hscans
    have hanswer : (lx.call c).1 = c.answer (.token l) := by rw [answer_call, htoken]
    have hgoes : (lx.call c).1.isFailedPull = false := by
      rw [hanswer]
      cases c <;> rfl
    rw [answers, next_call_of_not_failedPull hgoes, hanswer, ih hrest (Nat.succ.inj hlength)]
    rfl

end Lexer

/-- **The two ways to ask can be mixed.**  Take any calls of a lexer that starts at
the beginning of a source, and one call more.  As long as no `pull` has met a
fault, the calls answer as that many `scan`s do, each in its own words, and lead
to the same lexer.  Once one has, the lexer waits for an instruction at the end of
the source, on line 1, and every call finds the end there.  Once a call has found
the end, every call does, and nothing changes.  The tokens of a source are
therefore those that the calls answer with before the end, however they are made,
or the first fault. -/
theorem lexer_calls_mix (source : String) :
    let start := Lexer.ofSource source
    (∀ (cs : List Lexer.Call) (c : Lexer.Call),
      let lx := start.behind cs
      ((∀ a ∈ start.answers cs, a.isFailedPull = false) →
        start.answers (cs ++ [c]) =
            List.zipWith Lexer.Call.answer (cs ++ [c]) (start.scans (cs.length + 1)) ∧
          lx = start.behind (List.replicate cs.length .scan)) ∧
      ((∃ a ∈ start.answers cs, a.isFailedPull = true) →
        lx.mode = .instruction ∧ lx.line = 1 ∧ lx.lineStart = 0 ∧
          lx.call c = (c.answer (.eof
            { start := source.utf8ByteSize, stop := source.utf8ByteSize, line := 1,
              column := source.utf8ByteSize + 1 }), lx)) ∧
      ((∃ a ∈ start.answers cs, a.isEnd = true) →
        (lx.call c).1.isEnd = true ∧ (lx.call c).2 = lx)) ∧
    ∃ ls last, start.scans (ls.length + 1) = ls.map .token ++ [last] ∧
      (∀ cs, cs.length = ls.length + 1 →
        start.answers cs = List.zipWith Lexer.Call.answer cs (ls.map .token ++ [last])) ∧
      ((∃ span, last = .eof span) ∧ tokenize source = .ok ls ∨
        ∃ e, last = .error e ∧ tokenize source = .error e) := by
  intro start
  refine ⟨fun cs c => ?_, ?_⟩
  · intro lx
    refine ⟨fun hgoes => ?_, fun hfailed => ?_, fun hend => ?_⟩
    · exact ⟨Lexer.answers_of_no_failedPull hgoes c, Lexer.behind_of_no_failedPull hgoes⟩
    · obtain ⟨a, ha, hfailed⟩ := hfailed
      have hbehind : lx = start.giveUp := Lexer.behind_of_failedPull ha hfailed
      have hsize : start.giveUp.offset = source.utf8ByteSize :=
        (Nat.zero_add _).trans (Span.byteLength_toList source)
      rw [hbehind]
      refine ⟨rfl, rfl, rfl, ?_⟩
      rw [Lexer.call_of_rest_nil rfl, Lexer.spanAhead, hsize]
      rfl
    · obtain ⟨a, ha, hend⟩ := hend
      rw [Lexer.call_of_rest_nil (Lexer.rest_behind_of_isEnd ha hend)]
      exact ⟨Lexer.isEnd_answer _ _, rfl⟩
  · obtain ⟨last, hscans, hstops⟩ := start.scans_stream
    refine ⟨_, last, hscans, fun cs => Lexer.answers_of_scans hscans, ?_⟩
    cases last with
    | token l => exact hstops.elim
    | error e => exact .inr ⟨e, rfl, by rw [tokenize, hstops]⟩
    | eof span => exact .inl ⟨⟨span, rfl⟩, tokenize_eq_ok_iff.2 ⟨hstops, rfl⟩⟩

/-- A fault is passed by `scan`, and ends the text for `pull` and for all that follows. -/
example :
    let start := Lexer.ofSource "?CHILL"
    (start.answers [.scan, .pull, .pull]).map Lexer.Answer.isFailedPull = [false, false, false] ∧
      (start.answers [.scan, .pull, .pull]).map Lexer.Answer.isEnd = [false, false, true] ∧
      (start.answers [.pull, .scan, .pull]).map Lexer.Answer.isFailedPull = [true, false, false] ∧
      (start.answers [.pull, .scan, .pull]).map Lexer.Answer.isEnd = [false, true, true] := by
  decide +kernel

end Showtime
