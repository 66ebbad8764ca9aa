/-
# Optional spellings

Some tokens can be left out of a program, and some can be written in two ways,
without a trace in the program that is read:

| spelling | the same without it |
| --- | --- |
| `@NO PROBLEMO`, `@I LIED` | the integers `1` and `0` |
| GET YOUR ASS TO MARS dest DO IT NOW name | GET YOUR ASS TO MARS dest name |
| GIVE THESE PEOPLE AIR after a name and parameters | nothing |

`Grammar.Respells` is one such change at any place of a list of tokens.  The
draft that has read the tokens before the place comes to one and the same draft
over either spelling (`Draft.run_truth`, `Draft.run_callInto`,
`Draft.run_parametersEnd_iff`), so the tokens after the place are read alike.
-/

import Mathlib.Logic.Relation
import Showtime.Proofs.Parser.FirstError

namespace Showtime
namespace Grammar

/-- One optional spelling is changed, at any place of the tokens.

Where GIVE THESE PEOPLE AIR is added it must be absent, and it must come after
the whole list of parameters. -/
inductive Respells : List Token → List Token → Prop
  | truthToInt (before : List Token) (b : Bool) (after : List Token) :
    Respells (before ++ .truth b :: after) (before ++ .int (Integer.ofBool b) :: after)
  | intToTruth (before : List Token) (b : Bool) (after : List Token) :
    Respells (before ++ .int (Integer.ofBool b) :: after) (before ++ .truth b :: after)
  | addCall (before : List Token) (dest name : String) (after : List Token) :
    Respells (before ++ .phrase .callInto :: .var dest :: .var name :: after)
      (before ++ .phrase .callInto :: .var dest :: .phrase .call :: .var name :: after)
  | dropCall (before : List Token) (dest name : String) (after : List Token) :
    Respells (before ++ .phrase .callInto :: .var dest :: .phrase .call :: .var name :: after)
      (before ++ .phrase .callInto :: .var dest :: .var name :: after)
  | addParametersEnd (before : List Token) (name : String) {params names}
    (hparams : Star Param params names) (after : List Token)
    (hafter : ∀ t ∈ after.head?, t ≠ .phrase .parameter ∧ t ≠ .phrase .parametersEnd) :
    Respells (before ++ .phrase .methodOpen :: .var name :: (params ++ after))
      (before ++ .phrase .methodOpen :: .var name :: (params ++ .phrase .parametersEnd :: after))
  | dropParametersEnd (before : List Token) (name : String) {params names}
    (hparams : Star Param params names) (after : List Token) :
    Respells
      (before ++ .phrase .methodOpen :: .var name :: (params ++ .phrase .parametersEnd :: after))
      (before ++ .phrase .methodOpen :: .var name :: (params ++ after))

end Grammar

namespace Parser

open Grammar (Star)

/-! ### Truth values -/

/-- A truth value is read as the integer that it stands for. -/
theorem Body.shift_truth (body : Body) (b : Bool) :
    body.shift (.truth b) = body.shift (.int (Integer.ofBool b)) := by
  obtain ⟨frames, done, slot⟩ := body
  cases slot <;> rfl

namespace Draft

variable {d d' : Draft} {f : Finished}

/-- A truth value is read as the integer that it stands for, wherever it stands. -/
theorem run_truth (d : Draft) (b : Bool) :
    d.run ([.truth b].map Token.unplaced) =
      d.run ([.int (Integer.ofBool b)].map Token.unplaced) := by
  have hshift : d.shift (Token.truth b).unplaced =
      d.shift (Token.int (Integer.ofBool b)).unplaced := by
    cases d with
    | main body => exact congrArg (Option.map main) (body.shift_truth b)
    | method f name params body =>
      exact congrArg (Option.map (method f name params)) (body.shift_truth b)
    | _ => rfl
  rw [List.map_singleton, List.map_singleton, run, run, List.foldlM_cons, List.foldlM_cons, hshift]

/-! ### Calls with a destination -/

/-- The phrase of a call between the destination and the method name is passed
over. -/
theorem run_callInto (d : Draft) (dest name : String) :
    d.run ([.phrase .callInto, .var dest, .phrase .call, .var name].map Token.unplaced) =
      d.run ([.phrase .callInto, .var dest, .var name].map Token.unplaced) := by
  cases d with
  | main body =>
    obtain ⟨frames, done, slot⟩ := body
    cases slot <;> rfl
  | method f name params body =>
    obtain ⟨frames, done, slot⟩ := body
    cases slot <;> rfl
  | _ => rfl

/-- Where two pieces of text lead every draft to the same, they can stand for each
other. -/
theorem run_between {seg seg' : List Token}
    (h : ∀ d : Draft, d.run (seg.map Token.unplaced) = d.run (seg'.map Token.unplaced))
    (d : Draft) (before after : List Token) :
    d.run ((before ++ (seg ++ after)).map Token.unplaced) =
      d.run ((before ++ (seg' ++ after)).map Token.unplaced) := by
  simp only [run, List.map_append, List.foldlM_append]
  refine bind_congr fun d₁ => ?_
  rw [show (seg.map Token.unplaced).foldlM shift d₁ = _ from h d₁]
  rfl

/-! ### Ends of parameter lists -/

/-- The name and the parameters of a method lead to its header, whatever comes
behind them. -/
theorem exists_run_header {before params us : List Token} {name : String} {names : List String}
    (hparams : Star Grammar.Param params names)
    (hrun : start.run ((before ++ .phrase .methodOpen :: .var name :: (params ++ us)).map
      Token.unplaced) = some d) :
    ∃ f ps, ∀ vs : List Token,
      start.run ((before ++ .phrase .methodOpen :: .var name :: (params ++ vs)).map
        Token.unplaced) = (header f name ps).run (vs.map Token.unplaced) := by
  rw [List.map_append, run_append_eq_some_iff] at hrun
  obtain ⟨d₁, hbefore, hrun⟩ := hrun
  obtain ⟨d₂, hopen, -⟩ := run_cons_eq_some_iff.1 hrun
  obtain ⟨f, rfl⟩ := exists_closed_of_methodOpen rfl hopen
  have hopen : (closed f).shift (Token.phrase .methodOpen).unplaced = some (naming f) := rfl
  have hname : (naming f).shift (Token.var name).unplaced = some (header f name []) := rfl
  obtain ⟨ps, hheader⟩ : ∃ ps, (header f name []).run (params.map Token.unplaced) =
      some (header f name ps) := ⟨_, run_params hparams [] (map_token_unplaced params)⟩
  refine ⟨f, ps, fun vs => ?_⟩
  rw [List.map_append, run_append hbefore, List.map_cons, List.map_cons, List.map_append,
    run_cons hopen, run_cons hname, run_append hheader]

/-- A header goes on as the body does, unless it has another parameter or its
end. -/
theorem run_header_eq {name : String} {ps : List Param} {ts : List Token} (hne : ts ≠ [])
    (hts : ∀ t ∈ ts.head?, t ≠ .phrase .parameter ∧ t ≠ .phrase .parametersEnd) :
    (header f name ps).run (ts.map Token.unplaced) =
      (method f name ps .empty).run (ts.map Token.unplaced) := by
  obtain ⟨t, ts, rfl⟩ := List.exists_cons_of_ne_nil hne
  obtain ⟨hmore, hend⟩ := hts t rfl
  rw [List.map_cons, run, run, List.foldlM_cons, List.foldlM_cons,
    shift_header (l := t.unplaced) hmore hend]

/-- **The end of the parameters can be written or left out.** -/
theorem run_parametersEnd_iff {name : String} {ps : List Param} {ts : List Token} {g : Finished} :
    (header f name ps).run ((.phrase .parametersEnd :: ts).map Token.unplaced) =
        some (closed g) ↔
      (header f name ps).run (ts.map Token.unplaced) = some (closed g) ∧
        ∀ t ∈ ts.head?, t ≠ .phrase .parameter ∧ t ≠ .phrase .parametersEnd := by
  have hend : (header f name ps).run ((.phrase .parametersEnd :: ts).map Token.unplaced) =
      (method f name ps .empty).run (ts.map Token.unplaced) := rfl
  rw [hend]
  cases ts with
  | nil =>
    constructor
    · intro h
      cases h
    · rintro ⟨h, -⟩
      cases h
  | cons t ts =>
    constructor
    · intro h
      have ht : t ≠ .phrase .parameter ∧ t ≠ .phrase .parametersEnd := by
        -- no body begins with either
        constructor <;> rintro rfl <;> cases h
      have hhead : ∀ u ∈ (t :: ts).head?, u ≠ .phrase .parameter ∧ u ≠ .phrase .parametersEnd := by
        rintro u ⟨⟩
        exact ht
      exact ⟨(run_header_eq (List.cons_ne_nil t ts) hhead).trans h, hhead⟩
    · rintro ⟨h, hhead⟩
      exact (run_header_eq (List.cons_ne_nil t ts) hhead).symm.trans h

end Draft
end Parser

namespace Grammar

open Showtime.Parser Showtime.Parser.Draft

/-- One change leads to the same draft. -/
theorem Respells.run {ts us : List Token} (h : Respells ts us) {f : Finished}
    (hrun : start.run (ts.map Token.unplaced) = some (closed f)) :
    start.run (us.map Token.unplaced) = some (closed f) := by
  cases h with
  | truthToInt before b after =>
    rw [← hrun]
    exact run_between (fun d => (d.run_truth b).symm) _ before after
  | intToTruth before b after =>
    rw [← hrun]
    exact run_between (fun d => d.run_truth b) _ before after
  | addCall before dest name after =>
    rw [← hrun]
    exact run_between (fun d => d.run_callInto dest name) _ before after
  | dropCall before dest name after =>
    rw [← hrun]
    exact run_between (fun d => (d.run_callInto dest name).symm) _ before after
  | addParametersEnd before name hparams after hafter =>
    obtain ⟨g, ps, hheader⟩ := exists_run_header hparams hrun
    rw [hheader] at hrun ⊢
    exact run_parametersEnd_iff.2 ⟨hrun, hafter⟩
  | dropParametersEnd before name hparams after =>
    obtain ⟨g, ps, hheader⟩ := exists_run_header hparams hrun
    rw [hheader] at hrun ⊢
    exact (run_parametersEnd_iff.1 hrun).1

/-- **A change of spelling keeps the program.** -/
theorem Respells.program {ts us : List Token} (h : Respells ts us) {p : Showtime.Program}
    (hp : Program ts p) : Program us p := by
  obtain ⟨f, hrun, rfl⟩ := run_program hp (map_token_unplaced ts)
  have hreads := Reads.start.run (h.run hrun)
  rw [List.nil_append, map_token_unplaced] at hreads
  exact hreads.finish? rfl

end Grammar

/-- **The optional spellings are sugar.**  Tokens that are read as a program are
read as the same program after any number of changes of their spelling, whatever
the places of the tokens are. -/
theorem optional_spellings_are_sugar {source source' : String} {ls ls' : List Lexeme} {p : Program}
    (h : Parser.readStream source { lexemes := ls, fault := none } = .ok p)
    (hspell : Relation.ReflTransGen Grammar.Respells (ls.map Lexeme.token)
      (ls'.map Lexeme.token)) :
    Parser.readStream source' { lexemes := ls', fault := none } = .ok p := by
  obtain ⟨hprogram, hnodup⟩ := Parser.Draft.readAll_start_eq_ok_iff.1 h
  have hrespelled {us : List Token}
      (hspell : Relation.ReflTransGen Grammar.Respells (ls.map Lexeme.token) us) :
      Grammar.Program us p := by
    induction hspell with
    | refl => exact hprogram
    | tail _ hlast ih => exact hlast.program ih
  exact Parser.Draft.readAll_start_eq_ok_iff.2 ⟨hrespelled hspell, hnodup⟩

/-- Forwards a truth value through a method, with every optional spelling. -/
def forwardingInFull : List Token :=
  [.phrase .mainOpen, .phrase .callInto, .var "x", .phrase .call, .var "same", .truth true,
    .phrase .mainClose, .phrase .methodOpen, .var "same", .phrase .parameter, .var "n",
    .phrase .parametersEnd, .phrase .giveBack, .var "n", .phrase .methodClose]

/-- The same without any of them. -/
def forwardingInShort : List Token :=
  [.phrase .mainOpen, .phrase .callInto, .var "x", .var "same", .int 1,
    .phrase .mainClose, .phrase .methodOpen, .var "same", .phrase .parameter, .var "n",
    .phrase .giveBack, .var "n", .phrase .methodClose]

/-- Both are read as the program that `x` gets from `same`. -/
theorem forwarding_read_alike :
    Relation.ReflTransGen Grammar.Respells forwardingInFull forwardingInShort ∧
    ∃ p : Program,
      Parser.readStream "" { lexemes := forwardingInFull.map Token.unplaced, fault := none } =
        .ok p ∧
      Parser.readStream "" { lexemes := forwardingInShort.map Token.unplaced, fault := none } =
        .ok p ∧
      p.main.body = [.expression .callInto [.var "x", .var "same", .int 1]] := by
  have hspell : Relation.ReflTransGen Grammar.Respells forwardingInFull forwardingInShort :=
    ((Relation.ReflTransGen.single (.dropCall [_] "x" "same" _)).tail
      (.truthToInt [_, _, _, _] true _)).tail
      (.dropParametersEnd [_, _, _, _, _, _] "same" (.single (.mk "n")) _)
  have hread : Parser.readStream ""
      { lexemes := forwardingInFull.map Token.unplaced, fault := none } =
        .ok { main := .main [.expression .callInto [.var "x", .var "same", .int 1]],
              methods := [{ name := "same", params := ["n"],
                            body := [.expression .giveBack [.var "n"]] }] } := by
    decide
  refine ⟨hspell, _, hread, ?_, rfl⟩
  refine optional_spellings_are_sugar hread ?_
  rwa [map_token_unplaced, map_token_unplaced]

end Showtime
