/-
# Programs that can be written

A program is well-formed when its names are names, its strings can stand between
quotes, and its statements have the forms of the manual (`Program.WellFormed`).
These are the programs that some source is read as (`exists_parse_iff`).

For every nonterminal the values are found that are derived from tokens which a
source can have (`Grammar.Spelled`); they are the well-formed ones.  A program
has many such derivations: truth values are read as integers, and the phrase
after the parameters of a method and the one of a call into a variable may be
left out.
-/

import Showtime.Proofs.Parser.Acceptance
import Showtime.Proofs.Token.Spelling

namespace Showtime

/-! ### Well-formed programs -/

/-- An integer or a variable. -/
inductive Value.IsOperand : Value → Prop
  | int (n : Int64) : IsOperand (.int n)
  | var {name} (hname : IsName name) : IsOperand (.var name)

/-- An operand, or a string without quotes and line ends. -/
inductive Value.IsPrintable : Value → Prop
  | operand {v} (h : IsOperand v) : IsPrintable v
  | str {s} (hs : ∀ c ∈ s.toList, c ≠ '"' ∧ c ≠ '\n') : IsPrintable (.str s)

namespace Statement

/-- A fold operator with its operand. -/
inductive IsFold : Statement → Prop
  | mk {op v} (hop : op.isFold = true) (hv : v.IsOperand) : IsFold (.expression op [v])

/-- A statement of one of the eight forms. -/
inductive WellFormed : Statement → Prop
  | print {v} (hv : v.IsPrintable) : WellFormed (.expression .print [v])
  | declare {x} (hx : IsName x) (n : Int64) : WellFormed (.expression .declare [.var x, .int n])
  | giveBack : WellFormed (.expression .giveBack [])
  | giveBackValue {v} (hv : v.IsOperand) : WellFormed (.expression .giveBack [v])
  | call {m args} (hm : IsName m) (hargs : ∀ v ∈ args, Value.IsOperand v) :
    WellFormed (.expression .call (.var m :: args))
  | callInto {x m args} (hx : IsName x) (hm : IsName m) (hargs : ∀ v ∈ args, Value.IsOperand v) :
    WellFormed (.expression .callInto (.var x :: .var m :: args))
  | assignment {x seed folds} (hx : IsName x) (hseed : seed.IsOperand)
    (hfolds : ∀ s ∈ folds, IsFold s) :
    WellFormed (.block .assignment [.var x] (.expression .firstOperand [seed] :: folds))
  | conditional {test then_} (htest : test.IsOperand) (hthen : ∀ s ∈ then_, WellFormed s) :
    WellFormed (.block .conditional [test] [.block .trueBranch [] then_])
  | conditionalElse {test then_ else_} (htest : test.IsOperand)
    (hthen : ∀ s ∈ then_, WellFormed s) (helse : ∀ s ∈ else_, WellFormed s) :
    WellFormed
      (.block .conditional [test] [.block .trueBranch [] then_, .block .falseBranch [] else_])
  | loop {test body} (htest : test.IsOperand) (hbody : ∀ s ∈ body, WellFormed s) :
    WellFormed (.block .loop [test] body)

end Statement

/-- A method that some source has: names that can be written, different parameters, and
statements that can be written. -/
structure Method.WellFormed (m : Method) : Prop where
  name : IsName m.name
  params : ∀ x ∈ m.params, IsName x
  distinct : m.params.Nodup
  body : ∀ s ∈ m.body, s.WellFormed

/-- A program that some source has.  The entry method has no name and no parameters. -/
structure Program.WellFormed (p : Program) : Prop where
  mainName : p.main.name = ""
  mainParams : p.main.params = []
  main : ∀ s ∈ p.main.body, s.WellFormed
  methods : ∀ m ∈ p.methods, m.WellFormed

namespace Grammar

/-! ### Operands -/

/-- The value is derived from tokens that a source can have. -/
def Spelled {α : Type} (R : List Token → α → Prop) (a : α) : Prop :=
  ∃ ts, R ts a ∧ ∀ t ∈ ts, t.Spellable

/-- A list can be written if each element can. -/
theorem spelled_star_iff {α : Type} {R : List Token → α → Prop} {as : List α} :
    Spelled (Star R) as ↔ ∀ a ∈ as, Spelled R a := by
  constructor
  · rintro ⟨ts, h, hts⟩
    induction h with
    | nil => nofun
    | cons head tail ih =>
      rw [List.forall_mem_append] at hts
      rw [List.forall_mem_cons]
      exact ⟨⟨_, head, hts.1⟩, ih hts.2⟩
  · intro h
    induction as with
    | nil => exact ⟨[], .nil, nofun⟩
    | cons a as ih =>
      rw [List.forall_mem_cons] at h
      obtain ⟨⟨ts, hhead, hts⟩, htail⟩ := h
      obtain ⟨us, htail, hus⟩ := ih htail
      exact ⟨ts ++ us, .cons hhead htail, List.forall_mem_append.2 ⟨hts, hus⟩⟩

/-- The operands that can be written. -/
theorem spelled_operand_iff {v : Value} : Spelled Operand v ↔ v.IsOperand := by
  constructor
  · rintro ⟨ts, h, hts⟩
    cases h with
    | int n => exact .int n
    | truth b => exact .int _
    | var name => exact .var (hts _ List.mem_cons_self)
  · intro h
    cases h with
    | int n => exact ⟨[.int n], .int n, List.forall_mem_singleton.2 trivial⟩
    | @var name hname => exact ⟨[.var name], .var name, List.forall_mem_singleton.2 hname⟩

/-- The literals that can be written: a truth value is an integer by then. -/
theorem spelled_literal_iff {v : Value} : Spelled Literal v ↔ ∃ n, v = .int n := by
  constructor
  · rintro ⟨ts, h, -⟩
    cases h <;> exact ⟨_, rfl⟩
  · rintro ⟨n, rfl⟩
    exact ⟨[.int n], .int n, List.forall_mem_singleton.2 trivial⟩

/-- What can be written behind the phrase for printing. -/
theorem spelled_printable_iff {v : Value} : Spelled Printable v ↔ v.IsPrintable := by
  constructor
  · rintro ⟨ts, h, hts⟩
    cases h with
    | str s => exact .str (hts _ List.mem_cons_self)
    | operand h => exact .operand (spelled_operand_iff.1 ⟨ts, h, hts⟩)
  · intro h
    cases h with
    | operand h =>
      obtain ⟨ts, h, hts⟩ := spelled_operand_iff.2 h
      exact ⟨ts, .operand h, hts⟩
    | @str s hs => exact ⟨[.str s], .str s, List.forall_mem_singleton.2 hs⟩

/-- The steps of an assignment that can be written. -/
theorem spelled_fold_iff {s : Showtime.Statement} : Spelled Fold s ↔ s.IsFold := by
  constructor
  · rintro ⟨_, @⟨ts, us, op, v, hop, hoperand⟩, hts⟩
    rw [List.forall_mem_append] at hts
    have hfold : op.isFold = true := by cases hop <;> rfl
    exact .mk hfold (spelled_operand_iff.1 ⟨us, hoperand, hts.2⟩)
  · rintro @⟨op, v, hop, hv⟩
    obtain ⟨us, hv, hus⟩ := spelled_operand_iff.2 hv
    have hphrase : FoldOp [.phrase op.phrase] op := by
      cases op <;> cases hop <;> constructor
    exact ⟨_, .mk hphrase hv, List.forall_mem_cons.2 ⟨trivial, hus⟩⟩

/-! ### Statements -/

/-- What is derived is well-formed. -/
theorem Spelled.wellFormed {s : Showtime.Statement} (h : Spelled Statement s) : s.WellFormed := by
  obtain ⟨ts, h, hts⟩ := h
  -- the tokens of each part are among those of the statement, so the part is spelled too
  cases h with
  | print hvalue =>
    rw [List.forall_mem_cons] at hts
    exact .print (spelled_printable_iff.1 ⟨_, hvalue, hts.2⟩)
  | declare hinit =>
    simp only [List.forall_mem_cons] at hts
    obtain ⟨-, hname, -, hts⟩ := hts
    obtain ⟨n, rfl⟩ := spelled_literal_iff.1 ⟨_, hinit, hts⟩
    exact .declare hname n
  | assignment hseed hfolds =>
    simp only [List.forall_mem_cons, List.forall_mem_append] at hts
    obtain ⟨-, hname, -, ⟨hts, hus⟩, -⟩ := hts
    have hfolds := spelled_star_iff.1 ⟨_, hfolds, hus⟩
    exact .assignment hname (spelled_operand_iff.1 ⟨_, hseed, hts⟩)
      fun s hs => spelled_fold_iff.1 (hfolds s hs)
  | conditional htest hthen =>
    simp only [List.forall_mem_cons, List.forall_mem_append] at hts
    obtain ⟨-, ⟨hts, hus⟩, -⟩ := hts
    have hthen := spelled_star_iff.1 ⟨_, hthen, hus⟩
    exact .conditional (spelled_operand_iff.1 ⟨_, htest, hts⟩) fun s hs => (hthen s hs).wellFormed
  | conditionalElse htest hthen helse =>
    simp only [List.forall_mem_cons, List.forall_mem_append] at hts
    obtain ⟨-, ⟨hts, hus⟩, -, hvs, -⟩ := hts
    have hthen := spelled_star_iff.1 ⟨_, hthen, hus⟩
    have helse := spelled_star_iff.1 ⟨_, helse, hvs⟩
    exact .conditionalElse (spelled_operand_iff.1 ⟨_, htest, hts⟩)
      (fun s hs => (hthen s hs).wellFormed) fun s hs => (helse s hs).wellFormed
  | loop htest hbody =>
    simp only [List.forall_mem_cons, List.forall_mem_append] at hts
    obtain ⟨-, ⟨hts, hus⟩, -⟩ := hts
    have hbody := spelled_star_iff.1 ⟨_, hbody, hus⟩
    exact .loop (spelled_operand_iff.1 ⟨_, htest, hts⟩) fun s hs => (hbody s hs).wellFormed
  | call hargs =>
    simp only [List.forall_mem_cons] at hts
    obtain ⟨-, hname, hts⟩ := hts
    have hargs := spelled_star_iff.1 ⟨_, hargs, hts⟩
    exact .call hname fun v hv => spelled_operand_iff.1 (hargs v hv)
  | callInto hargs =>
    simp only [List.forall_mem_cons] at hts
    obtain ⟨-, hdest, hname, hts⟩ := hts
    have hargs := spelled_star_iff.1 ⟨_, hargs, hts⟩
    exact .callInto hdest hname fun v hv => spelled_operand_iff.1 (hargs v hv)
  | callIntoCall hargs =>
    simp only [List.forall_mem_cons] at hts
    obtain ⟨-, hdest, -, hname, hts⟩ := hts
    have hargs := spelled_star_iff.1 ⟨_, hargs, hts⟩
    exact .callInto hdest hname fun v hv => spelled_operand_iff.1 (hargs v hv)
  | giveBack => exact .giveBack
  | giveBackValue hvalue =>
    rw [List.forall_mem_cons] at hts
    exact .giveBackValue (spelled_operand_iff.1 ⟨_, hvalue, hts.2⟩)
termination_by sizeOf s

/-- Lists of operands that can be written. -/
theorem spelled_operands_iff {vs : List Value} :
    Spelled (Star Operand) vs ↔ ∀ v ∈ vs, v.IsOperand :=
  spelled_star_iff.trans (forall₂_congr fun _ _ => spelled_operand_iff)

/-- **What is well-formed is derived.** -/
theorem spelled_of_wellFormed {s : Showtime.Statement} (h : s.WellFormed) :
    Spelled Statement s := by
  induction h with
  | print hv =>
    obtain ⟨ts, hv, hts⟩ := spelled_printable_iff.2 hv
    exact ⟨_, .print hv, List.forall_mem_cons.2 ⟨trivial, hts⟩⟩
  | declare hx n =>
    refine ⟨_, .declare (.int n), ?_⟩
    simp only [List.forall_mem_cons]
    exact ⟨trivial, hx, trivial, trivial, nofun⟩
  | giveBack => exact ⟨_, .giveBack, List.forall_mem_singleton.2 trivial⟩
  | giveBackValue hv =>
    obtain ⟨ts, hv, hts⟩ := spelled_operand_iff.2 hv
    exact ⟨_, .giveBackValue hv, List.forall_mem_cons.2 ⟨trivial, hts⟩⟩
  | call hm hargs =>
    obtain ⟨ts, hargs, hts⟩ := spelled_operands_iff.2 hargs
    refine ⟨_, .call hargs, ?_⟩
    simp only [List.forall_mem_cons]
    exact ⟨trivial, hm, hts⟩
  | callInto hx hm hargs =>
    obtain ⟨ts, hargs, hts⟩ := spelled_operands_iff.2 hargs
    refine ⟨_, .callInto hargs, ?_⟩
    simp only [List.forall_mem_cons]
    exact ⟨trivial, hx, hm, hts⟩
  | assignment hx hseed hfolds =>
    obtain ⟨ts, hseed, hts⟩ := spelled_operand_iff.2 hseed
    obtain ⟨us, hfolds, hus⟩ :=
      spelled_star_iff.2 fun s hs => spelled_fold_iff.2 (hfolds s hs)
    refine ⟨_, .assignment hseed hfolds, ?_⟩
    simp only [List.forall_mem_cons, List.forall_mem_append]
    exact ⟨trivial, hx, trivial, ⟨hts, hus⟩, trivial, nofun⟩
  | conditional htest _ ihthen =>
    obtain ⟨ts, htest, hts⟩ := spelled_operand_iff.2 htest
    obtain ⟨us, hthen, hus⟩ := spelled_star_iff.2 ihthen
    refine ⟨_, .conditional htest hthen, ?_⟩
    simp only [List.forall_mem_cons, List.forall_mem_append]
    exact ⟨trivial, ⟨hts, hus⟩, trivial, nofun⟩
  | conditionalElse htest _ _ ihthen ihelse =>
    obtain ⟨ts, htest, hts⟩ := spelled_operand_iff.2 htest
    obtain ⟨us, hthen, hus⟩ := spelled_star_iff.2 ihthen
    obtain ⟨vs, helse, hvs⟩ := spelled_star_iff.2 ihelse
    refine ⟨_, .conditionalElse htest hthen helse, ?_⟩
    simp only [List.forall_mem_cons, List.forall_mem_append]
    exact ⟨trivial, ⟨hts, hus⟩, trivial, hvs, trivial, nofun⟩
  | loop htest _ ihbody =>
    obtain ⟨ts, htest, hts⟩ := spelled_operand_iff.2 htest
    obtain ⟨us, hbody, hus⟩ := spelled_star_iff.2 ihbody
    refine ⟨_, .loop htest hbody, ?_⟩
    simp only [List.forall_mem_cons, List.forall_mem_append]
    exact ⟨trivial, ⟨hts, hus⟩, trivial, nofun⟩

/-- Lists of statements that can be written. -/
theorem spelled_statements_iff {ss : List Showtime.Statement} :
    Spelled (Star Statement) ss ↔ ∀ s ∈ ss, s.WellFormed :=
  spelled_star_iff.trans
    (forall₂_congr fun _ _ => ⟨Spelled.wellFormed, spelled_of_wellFormed⟩)

/-! ### Methods -/

/-- Headers that can be written: those of writable names. -/
theorem spelled_params_iff {names : List String} :
    Spelled Params names ↔ ∀ x ∈ names, IsName x := by
  have hparam (x : String) : Spelled Param x ↔ IsName x := by
    constructor
    · rintro ⟨_, ⟨⟩, hts⟩
      exact hts (.var x) (List.mem_cons_of_mem _ List.mem_cons_self)
    · intro hx
      refine ⟨_, .mk x, ?_⟩
      simp only [List.forall_mem_cons]
      exact ⟨trivial, hx, nofun⟩
  have hstar : Spelled (Star Param) names ↔ ∀ x ∈ names, IsName x :=
    spelled_star_iff.trans (forall₂_congr fun x _ => hparam x)
  rw [← hstar]
  constructor
  · rintro ⟨ts, h, hts⟩
    obtain ⟨us, hus, rfl | rfl⟩ := params_iff.1 h
    · exact ⟨ts, hus, hts⟩
    · exact ⟨us, hus, (List.forall_mem_append.1 hts).1⟩
  · rintro ⟨us, hus, hts⟩
    exact ⟨us, params_iff.2 ⟨us, hus, .inl rfl⟩, hts⟩

/-- The methods that can be written, their parameters being different or not. -/
theorem spelled_methodDef_iff {m : Method} :
    Spelled MethodDef m ↔
      IsName m.name ∧ (∀ x ∈ m.params, IsName x) ∧ ∀ s ∈ m.body, s.WellFormed := by
  rw [← spelled_params_iff, ← spelled_statements_iff]
  constructor
  · rintro ⟨_, ⟨hparams, hbody⟩, hts⟩
    simp only [List.forall_mem_cons, List.forall_mem_append] at hts
    obtain ⟨-, hname, ⟨hts, hus⟩, -⟩ := hts
    exact ⟨hname, ⟨_, hparams, hts⟩, ⟨_, hbody, hus⟩⟩
  · rintro ⟨hname, ⟨ts, hparams, hts⟩, ⟨us, hbody, hus⟩⟩
    refine ⟨_, .mk hparams hbody, ?_⟩
    simp only [List.forall_mem_cons, List.forall_mem_append]
    exact ⟨trivial, hname, ⟨hts, hus⟩, trivial, nofun⟩

/-- The entry methods that can be written. -/
theorem spelled_mainMethod_iff {m : Method} :
    Spelled MainMethod m ↔ m.name = "" ∧ m.params = [] ∧ ∀ s ∈ m.body, s.WellFormed := by
  rw [← spelled_statements_iff]
  constructor
  · rintro ⟨_, ⟨hbody⟩, hts⟩
    simp only [List.forall_mem_cons, List.forall_mem_append] at hts
    exact ⟨rfl, rfl, _, hbody, hts.2.1⟩
  · rintro ⟨hname, hparams, ts, hbody, hts⟩
    obtain ⟨name, params, body⟩ := m
    obtain rfl : name = "" := hname
    obtain rfl : params = [] := hparams
    refine ⟨_, .mk hbody, ?_⟩
    simp only [List.forall_mem_cons, List.forall_mem_append]
    exact ⟨trivial, hts, trivial, nofun⟩

/-- A well-formed program is one that is derived, its parameters being distinct. -/
theorem spelled_program_iff {p : Showtime.Program} :
    (Spelled Program p ∧ ∀ m ∈ p.methods, m.params.Nodup) ↔ p.WellFormed := by
  constructor
  · rintro ⟨⟨_, @⟨ts, main, us, methods, hmain, hmethods⟩, hts⟩, hnodup⟩
    rw [List.forall_mem_append] at hts
    obtain ⟨hname, hparams, hbody⟩ := spelled_mainMethod_iff.1 ⟨ts, hmain, hts.1⟩
    have hmethods := spelled_star_iff.1 ⟨us, hmethods, hts.2⟩
    refine ⟨hname, hparams, hbody, fun m hm => ?_⟩
    obtain ⟨hname, hparams, hbody⟩ := spelled_methodDef_iff.1 (hmethods m hm)
    exact ⟨hname, hparams, hnodup m hm, hbody⟩
  · intro h
    obtain ⟨ts, hmain, hts⟩ := spelled_mainMethod_iff.2 ⟨h.mainName, h.mainParams, h.main⟩
    obtain ⟨us, hmethods, hus⟩ := spelled_star_iff.2 fun m hm =>
      spelled_methodDef_iff.2 ⟨(h.methods m hm).name, (h.methods m hm).params, (h.methods m hm).body⟩
    exact ⟨⟨ts ++ us, .mk hmain hmethods, List.forall_mem_append.2 ⟨hts, hus⟩⟩,
      fun m hm => (h.methods m hm).distinct⟩

/-- The first token of a program is a phrase. -/
theorem Program.isPhrase_of_mem_head? {ts : List Token} {p : Showtime.Program}
    (h : Program ts p) : ∀ t ∈ ts.head?, t.isPhrase = true := by
  obtain ⟨⟨-⟩, -⟩ := h
  rintro t ⟨⟩
  rfl

end Grammar

/-- **The programs that can be written are the well-formed ones.**  Whatever the
names, the integers, the strings and the nesting, there is a source that is read
as the program; and no source is read as a program of another form. -/
theorem exists_parse_iff (p : Program) :
    (∃ source, Program.parse source = .ok p) ↔ p.WellFormed := by
  rw [← Grammar.spelled_program_iff]
  constructor
  · rintro ⟨source, hparse⟩
    obtain ⟨ls, hls, hprogram, hnodup⟩ := Program.parse_eq_ok_iff.1 hparse
    obtain ⟨hspellable, -⟩ := exists_tokenize_iff.1 ⟨source, ls, hls, rfl⟩
    exact ⟨⟨_, hprogram, hspellable⟩, hnodup⟩
  · rintro ⟨⟨ts, hprogram, hspellable⟩, hnodup⟩
    obtain ⟨source, ls, hls, rfl⟩ :=
      exists_tokenize_iff.2 ⟨hspellable, hprogram.isPhrase_of_mem_head?⟩
    exact ⟨source, Program.parse_eq_ok_iff.2 ⟨ls, hls, hprogram, hnodup⟩⟩

end Showtime
