/-
# Starts of programs

Tokens are viable when a program goes on from them.  The parser takes exactly
the viable tokens (`viable_iff_run`): what it has read can always be completed,
by ending the statement that is begun, the blocks around it and the method.

| what is begun | what is missing |
| --- | --- |
| a statement | the rest of its form, every operand being `0` or a variable |
| a branch, a loop | the phrase that ends it |
| a method | its name, if that has not come, and the phrase that ends it |

So a token can come next if and only if the draft takes it
(`viable_concat_iff`), and the end of the input can if and only if the draft is
finished (`derivable_iff_finish?`).
-/

import Showtime.Proofs.Parser.Acceptance

namespace Showtime
namespace Grammar

/-- The tokens are a program, repeated parameters being allowed. -/
def Derivable (ts : List Token) : Prop :=
  ∃ p, Program ts p

/-- The tokens are the start of a program. -/
def Viable (ts : List Token) : Prop :=
  ∃ us, Derivable (ts ++ us)

/-- The start of a start is a start. -/
theorem Viable.of_append {ts us : List Token} (h : Viable (ts ++ us)) : Viable ts := by
  obtain ⟨vs, h⟩ := h
  exact ⟨us ++ vs, by rwa [← List.append_assoc]⟩

end Grammar

open Grammar (Derivable Viable)

/-- A token whose place does not matter. -/
def Token.unplaced (t : Token) : Lexeme :=
  { token := t, span := default }

/-- A token without a place is still the token. -/
@[simp]
theorem Token.token_unplaced (t : Token) : t.unplaced.token = t := rfl

/-- Tokens without places are still the tokens. -/
@[simp]
theorem map_token_unplaced (ts : List Token) :
    (ts.map Token.unplaced).map Lexeme.token = ts := by
  rw [List.map_map]
  exact List.map_id ts

namespace Parser

/-! ### What is missing -/

/-- Tokens that complete the statement that is begun. -/
def Slot.missing : Slot → List Token
  | .ready | .arguments _ _ | .giveBack => []
  | .print | .declareValue _ => [.int 0]
  | .declare => [.var "", .phrase .initialValue, .int 0]
  | .declareName _ => [.phrase .initialValue, .int 0]
  | .assign => [.var "", .phrase .firstOperand, .int 0, .phrase .assignEnd]
  | .assignName _ => [.phrase .firstOperand, .int 0, .phrase .assignEnd]
  | .assignFirst _ | .foldOperand _ _ _ => [.int 0, .phrase .assignEnd]
  | .fold _ _ => [.phrase .assignEnd]
  | .branch => [.int 0, .phrase .branchEnd]
  | .loop => [.int 0, .phrase .loopEnd]
  | .call | .callIntoName _ | .callIntoMethod _ => [.var ""]
  | .callInto => [.var "", .var ""]

/-- The token that ends a block. -/
def Frame.ending : Frame → Token
  | .trueBranch _ _ | .falseBranch _ _ _ => .phrase .branchEnd
  | .loop _ _ => .phrase .loopEnd

/-- Tokens that complete a body. -/
def Body.missing (b : Body) : List Token :=
  b.slot.missing ++ b.frames.map Frame.ending

/-- Tokens that complete a program. -/
def Draft.missing : Draft → List Token
  | .start => [.phrase .mainOpen, .phrase .mainClose]
  | .main body => body.missing ++ [.phrase .mainClose]
  | .closed _ => []
  | .naming _ | .param _ _ _ => [.var "", .phrase .methodClose]
  | .header _ _ _ => [.phrase .methodClose]
  | .method _ _ _ body => body.missing ++ [.phrase .methodClose]

namespace Body

/-- The statement that is begun can be completed. -/
theorem run_missing_slot (b : Body) :
    ∃ b' done, b.run b.slot.missing = some b' ∧ b'.Rests b.frames done := by
  obtain ⟨frames, done, slot⟩ := b
  cases slot <;> exact ⟨_, _, rfl, rfl⟩

/-- The blocks around it can be ended, one by one. -/
theorem run_endings {frames : List Frame} {b : Body} {done : List Statement}
    (h : b.Rests frames done) :
    ∃ b' done', b.run (frames.map Frame.ending) = some b' ∧ b'.Rests [] done' := by
  induction frames generalizing b done with
  | nil => exact ⟨b, done, rfl, h⟩
  | cons frame frames ih =>
    obtain ⟨b₁, done₁, hshift, hrests⟩ :
        ∃ b₁ done₁, b.shift frame.ending = some b₁ ∧ b₁.Rests frames done₁ := by
      cases frame <;> exact ⟨_, _, h.shift_phrase _, rfl⟩
    obtain ⟨b', done', hrun, hrests'⟩ := ih hrests
    exact ⟨b', done', by rw [List.map_cons, run_cons hshift, hrun], hrests'⟩

/-- **A body can be completed.** -/
theorem run_missing (b : Body) : ∃ b' ss, b.run b.missing = some b' ∧ b'.close? = some ss := by
  obtain ⟨b₁, done₁, hslot, hrests₁⟩ := b.run_missing_slot
  obtain ⟨b', done', hendings, hrests⟩ := run_endings hrests₁
  exact ⟨b', done'.reverse, by rw [missing, run_append hslot, hendings], hrests.close?⟩

end Body

namespace Draft

variable {d d' : Draft} {ls ks : List Lexeme} {l : Lexeme}

/-- A run takes the first token and runs over the others. -/
theorem run_cons_eq_some_iff :
    d.run (l :: ls) = some d' ↔ ∃ d₁, d.shift l = some d₁ ∧ d₁.run ls = some d' := by
  rw [run, List.foldlM_cons]
  exact Option.bind_eq_some_iff

/-- Tokens are read in two parts. -/
theorem run_append_eq_some_iff :
    d.run (ls ++ ks) = some d' ↔ ∃ d₁, d.run ls = some d₁ ∧ d₁.run ks = some d' := by
  rw [run, List.foldlM_append]
  exact Option.bind_eq_some_iff

/-- The last token is read last. -/
theorem run_concat_eq_some_iff :
    d.run (ls ++ [l]) = some d' ↔ ∃ d₁, d.run ls = some d₁ ∧ d₁.shift l = some d' := by
  rw [run_append_eq_some_iff]
  refine exists_congr fun d₁ => and_congr_right fun _ => ?_
  rw [run_cons_eq_some_iff]
  simp [run]

/-- The body of a method can be completed, and the method with it. -/
theorem run_missing_body {wrap : Body → Draft} {close : Phrase}
    (hwrap : ∀ {b b' : Body} {l : Lexeme}, b.shift l.token = some b' →
      (wrap b).shift l = some (wrap b'))
    (hclose : ∀ {b : Body} {ss : List Statement}, b.close? = some ss →
      ∃ f, (wrap b).shift (Token.phrase close).unplaced = some (closed f)) (b : Body) :
    ∃ f, (wrap b).run ((b.missing ++ [Token.phrase close]).map Token.unplaced) = some (closed f) := by
  obtain ⟨b', ss, hrun, hss⟩ := b.run_missing
  obtain ⟨f, hshift⟩ := hclose hss
  refine ⟨f, ?_⟩
  rw [List.map_append, run_append (run_body hwrap (by rwa [map_token_unplaced]))]
  exact run_cons hshift []

/-- A body that can be closed is closed by the end of the entry method. -/
theorem shift_main_close {b : Body} {ss : List Statement} (h : b.close? = some ss) :
    ∃ f, (main b).shift (Token.phrase .mainClose).unplaced = some (closed f) := by
  refine ⟨{ main := ss, methods := [] }, ?_⟩
  simp only [shift, Token.token_unplaced, shiftMain, h, Option.map_some]

/-- A body that can be closed is closed by the end of its method. -/
theorem shift_method_close {f : Finished} {name : String} {params : List Param} {b : Body}
    {ss : List Statement} (h : b.close? = some ss) :
    ∃ f', (method f name params b).shift (Token.phrase .methodClose).unplaced =
      some (closed f') := by
  refine ⟨{ f with methods := { name, params := params.reverse, body := ss } :: f.methods }, ?_⟩
  simp only [shift, Token.token_unplaced, shiftMethod, h, Option.map_some]

/-- **A draft can be completed.** -/
theorem run_missing (d : Draft) :
    ∃ f, d.run (d.missing.map Token.unplaced) = some (closed f) := by
  cases d with
  | main body => exact run_missing_body shift_main shift_main_close body
  | method f name params body => exact run_missing_body shift_method shift_method_close body
  | _ => exact ⟨_, rfl⟩

/-! ### What is viable -/

/-- What is read goes on to a program. -/
theorem Reads.viable {ts : List Token} (h : d.Reads ts) : Viable ts := by
  obtain ⟨f, hrun⟩ := d.run_missing
  have hreads := h.run hrun
  rw [map_token_unplaced] at hreads
  exact ⟨d.missing, f.toProgram, hreads.finish? rfl⟩

/-- **The parser takes what is viable.** -/
theorem viable_iff_run : Viable (ls.map Lexeme.token) ↔ ∃ d, start.run ls = some d := by
  constructor
  · rintro ⟨us, p, h⟩
    have hls : (ls ++ us.map Token.unplaced).map Lexeme.token = ls.map Lexeme.token ++ us := by
      rw [List.map_append, map_token_unplaced]
    obtain ⟨f, hrun, -⟩ := run_program h hls
    obtain ⟨d, hrun, -⟩ := run_append_eq_some_iff.1 hrun
    exact ⟨d, hrun⟩
  · rintro ⟨d, hrun⟩
    have hreads : d.Reads (ls.map Lexeme.token) := Reads.start.run hrun
    exact hreads.viable

/-- What can come next is what the draft takes. -/
theorem viable_concat_iff (hrun : start.run ls = some d) (l : Lexeme) :
    Viable (ls.map Lexeme.token ++ [l.token]) ↔ (d.shift l).isSome := by
  have hmap : ls.map Lexeme.token ++ [l.token] = (ls ++ [l]).map Lexeme.token := by
    rw [List.map_append]
    rfl
  rw [hmap, viable_iff_run, Option.isSome_iff_exists]
  refine exists_congr fun d' => ?_
  rw [run_concat_eq_some_iff, hrun]
  simp

/-- The input can end where the draft is finished. -/
theorem derivable_iff_finish? (hrun : start.run ls = some d) :
    Derivable (ls.map Lexeme.token) ↔ d.finish?.isSome := by
  constructor
  · rintro ⟨p, h⟩
    obtain ⟨f, hrun', -⟩ := run_program h rfl
    obtain rfl := Option.some.inj (hrun.symm.trans hrun')
    rfl
  · intro h
    obtain ⟨p, hp⟩ := Option.isSome_iff_exists.1 h
    have hreads : d.Reads (ls.map Lexeme.token) := Reads.start.run hrun
    exact ⟨p, hreads.finish? hp⟩

end Draft
end Parser
end Showtime
