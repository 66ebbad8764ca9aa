/-
# What is accepted

The parser stops at the first thing that is wrong.  If there is none it has
taken every token and has found the parameters of every method distinct
(`readAll_start_eq_ok_iff`), so a source is accepted if and only if its tokens are a
program of the grammar whose methods have distinct parameters
(`parse_accepts_grammar`).
-/

import Showtime.Proofs.Parser.Completeness
import Showtime.Proofs.Parser.Soundness

namespace Showtime
namespace Parser
namespace Draft

/-! ### Repeated parameters -/

/-- No name is among `seen` or comes twice. -/
theorem firstRepeat?_eq_none_iff (seen : List String) (params : List Param) :
    firstRepeat? seen params = none ↔
      (params.map Param.name).Nodup ∧ ∀ p ∈ params, p.name ∉ seen := by
  induction params generalizing seen with
  | nil => simp [firstRepeat?]
  | cons p rest ih =>
    rw [firstRepeat?]
    split
    · next hseen => simp [hseen]
    · next hnew =>
      rw [ih, List.map_cons, List.nodup_cons]
      constructor
      · rintro ⟨hrest, hapart⟩
        have hname : p.name ∉ rest.map Param.name := by
          intro hmem
          obtain ⟨q, hq, hqp⟩ := List.mem_map.1 hmem
          exact hapart q hq (hqp ▸ List.mem_cons_self)
        refine ⟨⟨hname, hrest⟩, ?_⟩
        rintro q (_ | ⟨_, hq⟩)
        · exact hnew
        · exact fun hmem => hapart q hq (List.mem_cons_of_mem _ hmem)
      · rintro ⟨⟨hname, hrest⟩, hapart⟩
        refine ⟨hrest, fun q hq hmem => ?_⟩
        rcases List.mem_cons.1 hmem with heq | hmem
        · exact hname (heq ▸ List.mem_map_of_mem hq)
        · exact hapart q (List.mem_cons_of_mem _ hq) hmem

/-- The methods that are complete, latest first. -/
def definitions : Draft → List Definition
  | start | main _ => []
  | closed f | naming f | header f _ _ | param f _ _ | method f _ _ _ => f.methods

section

variable {d d' : Draft} {l : Lexeme}

/-- A token completes at most one method. -/
theorem definitions_shift (h : d.shift l = some d') :
    d'.definitions = d.definitions ∨
      ∃ f m, d' = closed f ∧ f.methods = m :: d.definitions := by
  -- a method can end right behind its header as well as behind statements
  have hmethod {f : Finished} {name : String} {params : List Param} {body : Body}
      (h : shiftMethod f name params body l.token = some d') :
      d'.definitions = f.methods ∨ ∃ f' m, d' = closed f' ∧ f'.methods = m :: f.methods := by
    unfold shiftMethod at h
    split at h
    · obtain ⟨ss, -, rfl⟩ := Option.map_eq_some_iff.1 h
      exact .inr ⟨_, _, rfl, rfl⟩
    · obtain ⟨body', -, rfl⟩ := Option.map_eq_some_iff.1 h
      exact .inl rfl
  cases d with
  | start =>
    simp only [shift] at h
    split at h
    · obtain rfl := Option.some.inj h
      exact .inl rfl
    · cases h
  | main body =>
    simp only [shift, shiftMain] at h
    split at h
    · obtain ⟨ss, -, rfl⟩ := Option.map_eq_some_iff.1 h
      exact .inl rfl
    · obtain ⟨body', -, rfl⟩ := Option.map_eq_some_iff.1 h
      exact .inl rfl
  | closed f =>
    simp only [shift] at h
    split at h
    · obtain rfl := Option.some.inj h
      exact .inl rfl
    · cases h
  | naming f =>
    obtain ⟨name, -, rfl⟩ := Option.map_eq_some_iff.1 h
    exact .inl rfl
  | header f name params =>
    simp only [shift] at h
    split at h
    · obtain rfl := Option.some.inj h
      exact .inl rfl
    · obtain rfl := Option.some.inj h
      exact .inl rfl
    · exact hmethod h
  | param f name params =>
    obtain ⟨x, -, rfl⟩ := Option.map_eq_some_iff.1 h
    exact .inl rfl
  | method f name params body => exact hmethod h

/-- The method that has just ended has distinct parameters. -/
theorem repeated?_closed_eq_none_iff {f : Finished} {m : Definition} {rest : List Definition}
    (h : f.methods = m :: rest) : (closed f).repeated? = none ↔ m.toMethod.params.Nodup := by
  obtain ⟨main, methods⟩ := f
  obtain rfl := h
  rw [repeated?, firstRepeat?_eq_none_iff, Definition.toMethod]
  simp

/-- Where all methods have distinct parameters, so has the last. -/
theorem repeated?_eq_none (h : ∀ m ∈ d.definitions, m.toMethod.params.Nodup) :
    d.repeated? = none := by
  cases d with
  | closed f =>
    cases hf : f.methods with
    | nil =>
      obtain ⟨main, methods⟩ := f
      obtain rfl := hf
      rfl
    | cons m rest =>
      refine (repeated?_closed_eq_none_iff hf).2 (h m ?_)
      rw [definitions, hf]
      exact List.mem_cons_self
  | _ => rfl

/-- A method that a token completes has distinct parameters, if the draft after
it is found to be in order. -/
theorem nodup_of_shift (h : d.shift l = some d') (hnone : d'.repeated? = none) {m : Definition}
    (hm : m ∈ d'.definitions) : m ∈ d.definitions ∨ m.toMethod.params.Nodup := by
  rcases definitions_shift h with hsame | ⟨f, m', rfl, hf⟩
  · exact .inl (hsame ▸ hm)
  · rw [definitions, hf] at hm
    rcases List.mem_cons.1 hm with rfl | hm
    · exact .inr ((repeated?_closed_eq_none_iff hf).1 hnone)
    · exact .inl hm

/-- Methods that are complete stay. -/
theorem definitions_subset_of_shift (h : d.shift l = some d') :
    d.definitions ⊆ d'.definitions := by
  rcases definitions_shift h with hsame | ⟨f, m', rfl, hf⟩
  · exact hsame ▸ List.Subset.refl _
  · rw [definitions, hf]
    exact List.subset_cons_self _ _

/-! ### Reading to the end -/

variable {source : String} {last : Nat} {ls : List Lexeme} {p : Program} {f : Finished}

/-- All tokens were read. -/
theorem Reads.run {ts : List Token} (h : d.Reads ts) (hrun : d.run ls = some d') :
    d'.Reads (ts ++ ls.map Lexeme.token) := by
  induction ls generalizing d ts with
  | nil =>
    obtain rfl := Option.some.inj hrun
    rwa [List.map_nil, List.append_nil]
  | cons l ls ih =>
    rw [Draft.run, List.foldlM_cons] at hrun
    obtain ⟨d₁, hshift, hrun⟩ := Option.bind_eq_some_iff.1 hrun
    have hreads := ih (h.shift hshift) hrun
    rwa [List.append_assoc] at hreads

/-- Methods that were complete stay so, whatever tokens come. -/
theorem definitions_subset_of_run (h : d.run ls = some d') : d.definitions ⊆ d'.definitions := by
  induction ls generalizing d with
  | nil =>
    obtain rfl := Option.some.inj h
    exact List.Subset.refl _
  | cons l ls ih =>
    rw [run, List.foldlM_cons] at h
    obtain ⟨d₁, hshift, hrun⟩ := Option.bind_eq_some_iff.1 h
    exact List.Subset.trans (definitions_subset_of_shift hshift) (ih hrun)

/-- A fault of the lexer is never overlooked. -/
theorem readAll_fault_ne_ok (e : LexError) : d.readAll source (some e) last ls ≠ .ok p := by
  induction ls generalizing d last with
  | nil => simp [readAll]
  | cons l ls ih =>
    rw [readAll]
    split
    · simp
    · simp
    · exact ih

/-- At the end a program is read if the draft can end and repeats no parameter. -/
theorem readAll_nil_eq_ok_iff :
    d.readAll source none last [] = .ok p ↔ d.finish? = some p ∧ d.repeated? = none := by
  cases hfinish : d.finish? with
  | none => simp [readAll, hfinish]
  | some program => cases hrepeated : d.repeated? <;> simp [readAll, hfinish, hrepeated]

/-- Before the end a program is read if the token can come, no parameter is repeated so
far, and the rest is read. -/
theorem readAll_cons_eq_ok_iff :
    d.readAll source none last (l :: ls) = .ok p ↔
      ∃ next, d.shift l = some next ∧ d.repeated? = none ∧
        next.readAll source none l.span.stop ls = .ok p := by
  cases hshift : d.shift l with
  | none => simp [readAll, hshift]
  | some next => cases hrepeated : d.repeated? <;> simp [readAll, hshift, hrepeated]

/-- What is read to the end was run to the end, and each method that was
completed on the way has distinct parameters. -/
theorem run_of_readAll (h : d.readAll source none last ls = .ok p) :
    d.repeated? = none ∧ ∃ f, d.run ls = some (closed f) ∧ f.toProgram = p ∧
      ∀ m ∈ f.methods, m ∈ d.definitions ∨ m.toMethod.params.Nodup := by
  induction ls generalizing d last with
  | nil =>
    obtain ⟨hfinish, hnone⟩ := readAll_nil_eq_ok_iff.1 h
    cases d with
    | closed f => exact ⟨hnone, f, rfl, Option.some.inj hfinish, fun m hm => .inl hm⟩
    | _ => cases hfinish
  | cons l ls ih =>
    obtain ⟨next, hshift, hnone, hrest⟩ := readAll_cons_eq_ok_iff.1 h
    obtain ⟨hnext, f, hrun, hp, hmethods⟩ := ih hrest
    refine ⟨hnone, f, by rw [run_cons hshift, hrun], hp, fun m hm => ?_⟩
    rcases hmethods m hm with hm | hm
    · exact nodup_of_shift hshift hnext hm
    · exact .inr hm

/-- What can be run to the end is read, if all its methods have distinct
parameters. -/
theorem readAll_of_run (h : d.run ls = some (closed f))
    (hmethods : ∀ m ∈ f.methods, m.toMethod.params.Nodup) :
    d.readAll source none last ls = .ok f.toProgram := by
  have hnone : d.repeated? = none :=
    repeated?_eq_none fun m hm => hmethods m (definitions_subset_of_run h hm)
  induction ls generalizing d last with
  | nil =>
    obtain rfl := Option.some.inj h
    exact readAll_nil_eq_ok_iff.2 ⟨rfl, hnone⟩
  | cons l ls ih =>
    rw [run, List.foldlM_cons] at h
    obtain ⟨next, hshift, hrun⟩ := Option.bind_eq_some_iff.1 h
    have hnext : next.repeated? = none :=
      repeated?_eq_none fun m hm => hmethods m (definitions_subset_of_run hrun hm)
    exact readAll_cons_eq_ok_iff.2 ⟨next, hshift, hnone, ih hrun hnext⟩

/-- **Tokens are read as the grammar says.** -/
theorem readAll_start_eq_ok_iff :
    start.readAll source none last ls = .ok p ↔
      Grammar.Program (ls.map Lexeme.token) p ∧ ∀ m ∈ p.methods, m.params.Nodup := by
  have hmethods (f : Finished) : (∀ m ∈ f.methods, m.toMethod.params.Nodup) ↔
      ∀ m ∈ f.toProgram.methods, m.params.Nodup := by
    simp [Finished.toProgram]
  constructor
  · intro h
    obtain ⟨-, f, hrun, rfl, hnodup⟩ := run_of_readAll h
    have hreads : (closed f).Reads (ls.map Lexeme.token) := Reads.start.run hrun
    refine ⟨hreads.finish? rfl, (hmethods f).1 fun m hm => ?_⟩
    exact (hnodup m hm).resolve_left List.not_mem_nil
  · rintro ⟨hprogram, hnodup⟩
    obtain ⟨f, hrun, rfl⟩ := run_program hprogram rfl
    exact readAll_of_run hrun ((hmethods f).2 hnodup)

end

end Draft
end Parser

/-- A list of tokens is at most one program. -/
theorem Grammar.Program.unique {ts : List Token} {p q : Showtime.Program}
    (hp : Grammar.Program ts p) (hq : Grammar.Program ts q) : p = q := by
  -- the places of the tokens do not matter
  have hts : (ts.map fun t => { token := t, span := default : Lexeme }).map Lexeme.token = ts := by
    rw [List.map_map]
    exact List.map_id ts
  obtain ⟨f, hrun, rfl⟩ := Parser.Draft.run_program hp hts
  obtain ⟨g, hrun', rfl⟩ := Parser.Draft.run_program hq hts
  obtain ⟨⟩ := Option.some.inj (hrun.symm.trans hrun')
  rfl

/-- A source is a program when its tokens are, the parameters being distinct. -/
theorem Program.parse_eq_ok_iff {source : String} {p : Program} :
    Program.parse source = .ok p ↔
      ∃ ls, tokenize source = .ok ls ∧ Grammar.Program (ls.map Lexeme.token) p ∧
        ∀ m ∈ p.methods, m.params.Nodup := by
  have hread : Program.parse source = .ok p ↔ Program.read source = .ok p := by
    rw [Program.parse]
    cases Program.read source with
    | error e => exact ⟨nofun, nofun⟩
    | ok q =>
      constructor
      · intro h
        have hq : q = p := Except.ok.inj h
        rw [hq]
      · intro h
        obtain rfl := Except.ok.inj h
        rfl
  rw [hread, Program.read, Parser.readStream]
  cases hfault : (Lexer.ofSource source).stream.fault with
  | some e =>
    have hnever := @Parser.Draft.readAll_fault_ne_ok
    simp [tokenize_eq_ok_iff, hfault, hnever]
  | none => simp [tokenize_eq_ok_iff, hfault, Parser.Draft.readAll_start_eq_ok_iff]

/-- **The parser accepts its grammar.**  A source is read as a program if and
only if its tokens derive that program and no method repeats a parameter; and no
tokens derive two programs. -/
theorem parse_accepts_grammar (source : String) (p : Program) :
    (Program.parse source = .ok p ↔
      ∃ ls, tokenize source = .ok ls ∧ Grammar.Program (ls.map Lexeme.token) p ∧
        ∀ m ∈ p.methods, m.params.Nodup) ∧
    ∀ ts q, Grammar.Program ts p → Grammar.Program ts q → p = q := by
  constructor
  · exact Program.parse_eq_ok_iff
  · intro ts q hp hq
    exact hp.unique hq

/-- Whether two computations have ended alike can be decided. -/
instance decEqExcept {ε α : Type} [DecidableEq ε] [DecidableEq α] : DecidableEq (Except ε α)
  | .ok a, .ok b => decidable_of_iff (a = b) (by simp)
  | .error e, .error f => decidable_of_iff (e = f) (by simp)
  | .ok _, .error _ => .isFalse (by simp)
  | .error _, .ok _ => .isFalse (by simp)

/-- A source with a method of two parameters that has a conditional, and with a call of
the method, line by line. -/
def Program.eitherLines : List String :=
  ["IT'S SHOWTIME", "GET YOUR ASS TO MARS m", "DO IT NOW either 0 7", "TALK TO THE HAND m",
    "YOU HAVE BEEN TERMINATED", "LISTEN TO ME VERY CAREFULLY either",
    "I NEED YOUR CLOTHES YOUR BOOTS AND YOUR MOTORCYCLE a",
    "I NEED YOUR CLOTHES YOUR BOOTS AND YOUR MOTORCYCLE b", "GIVE THESE PEOPLE AIR",
    "BECAUSE I'M GOING TO SAY PLEASE a", "I'LL BE BACK a", "BULLSHIT", "I'LL BE BACK b",
    "YOU HAVE NO RESPECT FOR LOGIC", "HASTA LA VISTA, BABY"]

/-- The lines as one text. -/
def Program.eitherSource : String :=
  String.ofList (eitherLines.flatMap fun line => line.toList ++ ['\n'])

/-- The program of the source. -/
def Program.either : Program where
  main := .main [.expression .callInto [.var "m", .var "either", .int 0, .int 7],
    .expression .print [.var "m"]]
  methods := [{
    name := "either"
    params := ["a", "b"]
    body := [.block .conditional [.var "a"]
      [.block .trueBranch [] [.expression .giveBack [.var "a"]],
        .block .falseBranch [] [.expression .giveBack [.var "b"]]]] }]

/-- The source is read, so its tokens derive the program, and they derive no other. -/
theorem either_derived_from_source :
    Program.parse Program.eitherSource = .ok .either ∧
      ∃ ls, tokenize Program.eitherSource = .ok ls ∧
        Grammar.Program (ls.map Lexeme.token) .either ∧
          ∀ q, Grammar.Program (ls.map Lexeme.token) q → .either = q := by
  obtain ⟨haccepts, hunique⟩ := parse_accepts_grammar Program.eitherSource .either
  have hparse : Program.parse Program.eitherSource = .ok .either := by
    rw [Program.parse, Program.read, Lexer.ofSource, Program.eitherSource, String.toList_ofList]
    decide +kernel
  obtain ⟨ls, hls, hderives, -⟩ := haccepts.1 hparse
  exact ⟨hparse, ls, hls, hderives, fun q hq => hunique _ q hderives hq⟩

end Showtime
