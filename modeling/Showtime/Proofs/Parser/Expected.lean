/-
# Tokens that cannot come next

A token that cannot come next is reported where it stands, with the kinds of
tokens that could have come.  Whether a token can come depends on its kind only
(`Draft.isSome_shift_congr`), so the kinds that the parser offers are the ones
that the grammar allows (`Draft.mem_nextKinds_iff`), with one exception.

A return without an operand, and a call, may end or take one more operand
(`Grammar.EndsOpen`).  When a phrase comes that can follow a statement somewhere
in the grammar (`Grammar.FollowsStatement`), such a statement has ended by the
time it is found that the phrase cannot come here, and operands are no longer
offered (`Grammar.LeftOut`).
-/

import Showtime.Proofs.Parser.Places
import Showtime.Proofs.Parser.Viable

namespace Showtime

open Grammar (Star Derivable Viable)

/-- No kind of token is listed twice. -/
theorem Terminal.nodup_all : Terminal.all.Nodup := by decide

/-- The kinds of operands. -/
def Terminal.isOperand : Terminal → Bool
  | .int | .var | .truth => true
  | .phrase _ | .str => false

namespace Grammar

/-- The tokens end with a statement that is complete and could still take an
operand: a return without one, or a call up to the method name or an argument. -/
inductive EndsOpen : List Token → Prop
  | giveBack (ts : List Token) : EndsOpen (ts ++ [.phrase .giveBack])
  | call (ts : List Token) (name : String) {us args} (hargs : Star Operand us args) :
    EndsOpen (ts ++ .phrase .call :: .var name :: us)
  | callInto (ts : List Token) (dest name : String) {us args} (hargs : Star Operand us args) :
    EndsOpen (ts ++ .phrase .callInto :: .var dest :: .var name :: us)

/-- Some statement begins with the phrase, or it ends a list of statements. -/
def FollowsStatement (p : Phrase) : Prop :=
  (∃ ts s, Statement (.phrase p :: ts) s) ∨
    p ∈ [Phrase.mainClose, .methodClose, .otherwise, .branchEnd, .loopEnd]

/-- A kind that is not offered in place of a token though it could have come. -/
def LeftOut (ts : List Token) (found : Option Token) (k : Terminal) : Prop :=
  k.isOperand ∧ EndsOpen ts ∧ ∃ p, found = some (.phrase p) ∧ FollowsStatement p

/-- More tokens before. -/
theorem EndsOpen.append_left {ts : List Token} (h : EndsOpen ts) (us : List Token) :
    EndsOpen (us ++ ts) := by
  cases h with
  | giveBack ts =>
    rw [← List.append_assoc]
    exact .giveBack _
  | call ts name hargs =>
    rw [← List.append_assoc]
    exact .call _ name hargs
  | callInto ts dest name hargs =>
    rw [← List.append_assoc]
    exact .callInto _ dest name hargs

/-- The phrases on which the parser begins a statement are those that begin one in the
grammar. -/
theorem isSome_opened?_iff {p : Phrase} :
    (Parser.opened? p).isSome ↔ ∃ ts s, Statement (.phrase p :: ts) s := by
  constructor
  · intro h
    cases p with
    | print => exact ⟨_, _, .print (.operand (.int 0))⟩
    | declare => exact ⟨_, _, @Statement.declare "" _ _ (.int 0)⟩
    | assign => exact ⟨_, _, @Statement.assignment "" _ _ _ _ (.int 0) .nil⟩
    | branch => exact ⟨_, _, .conditional (.int 0) .nil⟩
    | loop => exact ⟨_, _, .loop (.int 0) .nil⟩
    | call => exact ⟨_, _, @Statement.call "" _ _ .nil⟩
    | callInto => exact ⟨_, _, @Statement.callInto "" "" _ _ .nil⟩
    | giveBack => exact ⟨_, _, .giveBack⟩
    | _ => cases h
  · rintro ⟨ts, s, h⟩
    obtain ⟨q, us, heq, hq⟩ := h.exists_opened
    cases heq
    exact hq

/-- The phrases on which the parser completes a statement are those that can follow one.
-/
theorem endsStatement_iff {p : Phrase} :
    Parser.Draft.endsStatement p = true ↔ FollowsStatement p := by
  rw [Parser.Draft.endsStatement, FollowsStatement, Bool.or_eq_true, decide_eq_true_iff,
    isSome_opened?_iff]

end Grammar

namespace Parser

/-! ### Kinds of tokens -/

namespace Body

/-- A body looks at the kind of a token only. -/
theorem isSome_shift_congr (b : Body) {t t' : Token} (h : t.terminal? = t'.terminal?) :
    (b.shift t).isSome = (b.shift t').isSome := by
  obtain ⟨frames, done, slot⟩ := b
  cases t <;> cases t' <;> cases h
  · rfl
  all_goals cases slot <;> rfl

/-- The statement that is begun is complete, unless an operand comes. -/
def openEnded (b : Body) : Bool :=
  match b.slot with
  | .arguments _ _ | .giveBack => true
  | _ => false

/-- A statement is completed once. -/
theorem settle_settle (b : Body) : b.settle.settle = b.settle := by
  obtain ⟨frames, done, slot⟩ := b
  cases slot <;> rfl

/-- Closing a body completes the statement in any case. -/
theorem close?_settle (b : Body) : b.settle.close? = b.close? := by
  rw [close?, close?, settle_settle]

/-- After a statement is completed, all can come that could come before, its
operands apart. -/
theorem isSome_shift_settle (b : Body) (k : Terminal) :
    (b.settle.shift k.sample).isSome =
      ((b.shift k.sample).isSome && !(b.openEnded && k.isOperand)) := by
  obtain ⟨frames, done, slot⟩ := b
  cases slot with
  | arguments op args => cases k <;> simp [openEnded, Terminal.isOperand] <;> rfl
  | giveBack => cases k <;> simp [openEnded, Terminal.isOperand] <;> rfl
  | _ => simp [openEnded, settle]

end Body

namespace Draft

variable {d d' : Draft} {l l' : Lexeme} {ls : List Lexeme}

/-- **Whether a token can come depends on its kind only.** -/
theorem isSome_shift_congr (d : Draft) (h : l.token.terminal? = l'.token.terminal?) :
    (d.shift l).isSome = (d.shift l').isSome := by
  obtain ⟨t, span⟩ := l
  obtain ⟨t', span'⟩ := l'
  cases t <;> cases t' <;> cases h
  · cases d <;> rfl
  all_goals
    cases d with
    | main body =>
      simp only [shift, shiftMain, Option.isSome_map]
      exact body.isSome_shift_congr rfl
    | method f name params body =>
      simp only [shift, shiftMethod, Option.isSome_map]
      exact body.isSome_shift_congr rfl
    | _ => rfl

/-- The body that is being read; the header of a method may end where it
stands. -/
def body? : Draft → Option Body
  | main body | method _ _ _ body => some body
  | header _ _ _ => some .empty
  | _ => none

/-- The statement that is begun is complete, unless an operand comes. -/
def openEnded (d : Draft) : Bool :=
  d.body?.any Body.openEnded

/-- In the entry method a token can come if it closes the body, or if the body takes it.
-/
theorem isSome_shiftMain (body : Body) (t : Token) :
    (shiftMain body t).isSome =
      if t = .phrase .mainClose then body.close?.isSome else (body.shift t).isSome := by
  unfold shiftMain
  split
  · rw [if_pos rfl, Option.isSome_map]
  · next hopen => rw [if_neg hopen, Option.isSome_map]

/-- In a named method a token can come if it closes the body, or if the body takes it.
-/
theorem isSome_shiftMethod (f : Finished) (name : String) (params : List Param) (body : Body)
    (t : Token) :
    (shiftMethod f name params body t).isSome =
      if t = .phrase .methodClose then body.close?.isSome else (body.shift t).isSome := by
  unfold shiftMethod
  split
  · rw [if_pos rfl, Option.isSome_map]
  · next hopen => rw [if_neg hopen, Option.isSome_map]

/-- Completing a statement takes back its operands and nothing else. -/
theorem accepts_settle (d : Draft) (k : Terminal) :
    d.settle.accepts k = (d.accepts k && !(d.openEnded && k.isOperand)) := by
  have hphrase {p : Phrase} (h : k.sample = .phrase p) : k.isOperand = false := by
    cases k <;> cases h
    rfl
  cases d with
  | main body =>
    simp only [settle, accepts, shift, isSome_shiftMain, Body.close?_settle,
      Body.isSome_shift_settle, openEnded, body?, Option.any_some]
    by_cases h : k.sample = .phrase .mainClose
    · rw [if_pos h, if_pos h, hphrase h, Bool.and_false, Bool.not_false, Bool.and_true]
    · rw [if_neg h, if_neg h]
  | method f name params body =>
    simp only [settle, accepts, shift, isSome_shiftMethod, Body.close?_settle,
      Body.isSome_shift_settle, openEnded, body?, Option.any_some]
    by_cases h : k.sample = .phrase .methodClose
    · rw [if_pos h, if_pos h, hphrase h, Bool.and_false, Bool.not_false, Bool.and_true]
    · rw [if_neg h, if_neg h]
  | _ => simp [settle, openEnded, body?, Body.openEnded, Body.empty]

/-- The kinds that can come next are those that are accepted. -/
theorem mem_nextKinds {k : Terminal} : k ∈ d.nextKinds ↔ d.accepts k = true := by
  rw [nextKinds, List.mem_filter]
  exact and_iff_right (Terminal.mem_all k)

/-- The kinds that are offered in place of a token. -/
theorem mem_expectedFor {t : Token} {k : Terminal} :
    k ∈ d.expectedFor t ↔ d.accepts k = true ∧
      ¬ (k.isOperand = true ∧ d.openEnded = true ∧
        ∃ p, some t = some (.phrase p) ∧ Grammar.FollowsStatement p) := by
  cases t with
  | phrase p =>
    have hphrase : (∃ q, some (Token.phrase p) = some (.phrase q) ∧ Grammar.FollowsStatement q) ↔
        endsStatement p = true := by
      simp [Grammar.endsStatement_iff]
    rw [hphrase, expectedFor]
    split
    · next hp =>
      rw [mem_nextKinds, accepts_settle, hp]
      cases d.openEnded <;> cases k.isOperand <;> simp
    · next hp => simp [mem_nextKinds, hp]
  | _ => simp [expectedFor, mem_nextKinds]

/-- Kinds are offered in the order of the manual. -/
theorem sublist_expectedFor (d : Draft) (t : Token) : (d.expectedFor t).Sublist Terminal.all := by
  unfold expectedFor
  split
  · split <;> exact List.filter_sublist
  · exact List.filter_sublist

end Draft

/-! ### Statements that may end or go on -/

/-- What takes any arguments is a call. -/
theorem endsOpen_of_arguments {op : Op} {ts : List Token} {vs : List Value}
    (h : ∀ {us args}, Star Grammar.Operand us args →
      Grammar.Statement (ts ++ us) (.expression op (vs ++ args)))
    {us : List Token} {args : List Value} (hargs : Star Grammar.Operand us args) :
    Grammar.EndsOpen (ts ++ us) := by
  have hbare := h .nil
  obtain ⟨more, hmore⟩ : ∃ more, Grammar.Statement more (.expression op (vs ++ [.int 0, .int 0])) :=
    ⟨_, h ((Star.single (.int 0)).concat (.int 0))⟩
  rw [List.append_nil, List.append_nil] at hbare
  -- two arguments more are too many for the other statements
  cases hbare with
  | call hfirst =>
    rw [List.cons_append, List.cons_append]
    exact .call [] _ (hfirst.append hargs)
  | callInto hfirst =>
    rw [List.cons_append, List.cons_append, List.cons_append]
    exact .callInto [] _ _ (hfirst.append hargs)
  | @callIntoCall dest _ _ _ hfirst =>
    rw [List.cons_append, List.cons_append, List.cons_append, List.cons_append]
    exact .call [.phrase .callInto, .var dest] _ (hfirst.append hargs)
  | _ => cases hmore

/-- The tokens of an open-ended slot are a complete statement that could still take an
operand. -/
theorem Slot.Reads.endsOpen {slot : Slot} {ts : List Token} (h : slot.Reads ts) {b : Body}
    (hslot : b.slot = slot) (hopen : b.openEnded = true) : Grammar.EndsOpen ts := by
  rw [Body.openEnded, hslot] at hopen
  cases h with
  | arguments hstatement hargs => exact endsOpen_of_arguments hstatement hargs
  | giveBack => exact .giveBack []
  | _ => cases hopen

/-- The tokens of an open-ended body end with such a statement. -/
theorem Body.Reads.endsOpen {b : Body} {ts : List Token} (h : b.Reads ts)
    (hopen : b.openEnded = true) : Grammar.EndsOpen ts := by
  obtain ⟨-, -, hslot⟩ := h
  exact (hslot.endsOpen rfl hopen).append_left _

namespace Draft

variable {d d' : Draft} {b : Body} {l : Lexeme} {ls : List Lexeme}

/-- The tokens of an open-ended draft end with such a statement. -/
theorem Reads.endsOpen {ts : List Token} (h : d.Reads ts) (hopen : d.openEnded = true) :
    Grammar.EndsOpen ts := by
  cases h with
  | main hbody => exact (hbody.endsOpen hopen).append_left [_]
  | method h hparams hbody =>
    rw [List.append_cons, List.append_cons, ← List.append_assoc]
    exact (hbody.endsOpen hopen).append_left _
  | _ => cases hopen

/-- A phrase that begins a statement is taken by a body. -/
theorem body?_of_opener {p : Phrase} (hp : (opened? p).isSome) (hl : l.token = .phrase p)
    (h : d.shift l = some d') : ∃ b, d.body? = some b := by
  cases d with
  | main body => exact ⟨body, rfl⟩
  | header f name params => exact ⟨.empty, rfl⟩
  | method f name params body => exact ⟨body, rfl⟩
  | start =>
    rw [shift, hl] at h
    split at h
    · next heq =>
      cases heq
      cases hp
    · cases h
  | closed f =>
    rw [shift, hl] at h
    split at h
    · next heq =>
      cases heq
      cases hp
    · cases h
  | naming f =>
    rw [shift, hl] at h
    cases h
  | param f name params =>
    rw [shift, hl] at h
    cases h

/-- A body takes an operand, or a phrase that begins a statement, for the draft. -/
theorem body?_shift (hb : d.body? = some b)
    (hl : ∀ p, l.token = .phrase p → (opened? p).isSome) (h : d.shift l = some d') :
    ∃ b', b.shift l.token = some b' ∧ d'.body? = some b' := by
  have hother {p : Phrase} (hp : opened? p = none) : l.token ≠ .phrase p := by
    intro heq
    have hsome := hl p heq
    rw [hp] at hsome
    cases hsome
  have hmethod {f : Finished} {name : String} {params : List Param}
      (h : shiftMethod f name params b l.token = some d') :
      ∃ b', b.shift l.token = some b' ∧ d'.body? = some b' := by
    unfold shiftMethod at h
    split at h
    · next heq => exact absurd heq (hother rfl)
    · obtain ⟨b', hb', rfl⟩ := Option.map_eq_some_iff.1 h
      exact ⟨b', hb', rfl⟩
  cases d with
  | main body =>
    obtain rfl := Option.some.inj hb
    rw [shift, shiftMain] at h
    · obtain ⟨b', hb', rfl⟩ := Option.map_eq_some_iff.1 h
      exact ⟨b', hb', rfl⟩
    · exact hother rfl
  | header f name params =>
    obtain rfl := Option.some.inj hb
    rw [shift_header (hother rfl) (hother rfl)] at h
    exact hmethod h
  | method f name params body =>
    obtain rfl := Option.some.inj hb
    exact hmethod h
  | _ => cases hb

end Draft

namespace Body

variable {b b' : Body}

/-- Where a return is taken, it is begun. -/
theorem slot_of_giveBack (h : b.shift (.phrase .giveBack) = some b') : b'.slot = .giveBack := by
  obtain ⟨frames, done, slot⟩ := b
  cases slot <;> cases h <;> rfl

/-- Where the phrase of a call is taken, a method name comes next. -/
theorem slot_of_call (h : b.shift (.phrase .call) = some b') :
    b'.slot = .call ∨ ∃ x, b'.slot = .callIntoMethod x := by
  obtain ⟨frames, done, slot⟩ := b
  cases slot <;> cases h
  case callIntoName x => exact .inr ⟨x, rfl⟩
  all_goals exact .inl rfl

/-- A call with a destination waits for the destination. -/
theorem slot_of_callInto (h : b.shift (.phrase .callInto) = some b') : b'.slot = .callInto := by
  obtain ⟨frames, done, slot⟩ := b
  cases slot <;> cases h <;> rfl

/-- The method name of a call. -/
theorem slot_of_methodName {name : String} (hb : b.slot = .call ∨ ∃ x, b.slot = .callIntoMethod x)
    (h : b.shift (.var name) = some b') : ∃ op args, b'.slot = .arguments op args := by
  rcases hb with hb | ⟨x, hb⟩ <;>
    · rw [shift, hb] at h
      obtain rfl := Option.some.inj h
      exact ⟨_, _, rfl⟩

/-- One argument more. -/
theorem slot_of_argument {op : Op} {args : List Value} {t : Token} {v : Value}
    (hb : b.slot = .arguments op args) (ht : operand? t = some v) (h : b.shift t = some b') :
    ∃ op args, b'.slot = .arguments op args := by
  simp only [shift, hb, ht] at h
  obtain rfl := Option.some.inj h
  exact ⟨_, _, rfl⟩

end Body

namespace Draft

variable {d d' : Draft} {b : Body} {l l' k : Lexeme} {ls : List Lexeme}

/-- A call with arguments read so far. -/
def TakesArguments (d : Draft) : Prop :=
  ∃ b op args, d.body? = some b ∧ b.slot = .arguments op args

/-- A call that takes arguments may end or go on. -/
theorem TakesArguments.openEnded (h : d.TakesArguments) : d.openEnded = true := by
  obtain ⟨b, op, args, hb, hslot⟩ := h
  rw [Draft.openEnded, hb, Option.any_some, Body.openEnded, hslot]

/-- A call that takes arguments does so after any number of them. -/
theorem TakesArguments.run {ts : List Token} {vs : List Value} (h : d.TakesArguments)
    (hargs : Star Grammar.Operand ts vs) (hls : ls.map Lexeme.token = ts)
    (hrun : d.run ls = some d') : d'.TakesArguments := by
  induction hargs generalizing d ls with
  | nil =>
    obtain rfl := List.map_eq_nil_iff.1 hls
    obtain rfl := Option.some.inj hrun
    exact h
  | cons head _ ih =>
    obtain ⟨t, rfl, ht⟩ := Grammar.operand_iff.1 head
    obtain ⟨l, ls, rfl, hl, hls⟩ := List.map_eq_cons_iff.1 hls
    obtain ⟨d₁, hshift, hrun⟩ := run_cons_eq_some_iff.1 hrun
    obtain ⟨b, op, args, hb, hslot⟩ := h
    have hoperand : ∀ p, l.token = .phrase p → (opened? p).isSome := by
      intro p hp
      rw [← hl, hp] at ht
      cases ht
    obtain ⟨b₁, hb₁, hd₁⟩ := body?_shift hb hoperand hshift
    obtain ⟨op, args, hslot⟩ := Body.slot_of_argument hslot (hl ▸ ht) hb₁
    exact ih ⟨b₁, op, args, hd₁, hslot⟩ hls hrun

/-- A variable is no phrase. -/
theorem body?_shift_var {name : String} (hb : d.body? = some b) (hl : l.token = .var name)
    (h : d.shift l = some d') : ∃ b', b.shift (.var name) = some b' ∧ d'.body? = some b' := by
  rw [← hl]
  refine body?_shift hb (fun p hp => ?_) h
  rw [hl] at hp
  cases hp

/-- A phrase that begins a statement is taken by some body. -/
theorem body?_shift_opener {p : Phrase} (hp : (opened? p).isSome) (hl : l.token = .phrase p)
    (h : d.shift l = some d') :
    ∃ b b' : Body, b.shift (.phrase p) = some b' ∧ d'.body? = some b' := by
  obtain ⟨b, hb⟩ := body?_of_opener hp hl h
  refine ⟨b, ?_⟩
  rw [← hl]
  refine body?_shift hb (fun q hq => ?_) h
  rw [hl] at hq
  cases hq
  exact hp

/-- A call up to the method name. -/
theorem takesArguments_of_call {name : String} (hl : l.token = .phrase .call)
    (hl' : l'.token = .var name) (hrun : d.run [l, l'] = some d') : d'.TakesArguments := by
  obtain ⟨d₁, hcall, hrun⟩ := run_cons_eq_some_iff.1 hrun
  obtain ⟨d₂, hname, hrun⟩ := run_cons_eq_some_iff.1 hrun
  obtain rfl := Option.some.inj hrun
  obtain ⟨b₀, b₁, hb₁, hd₁⟩ := body?_shift_opener rfl hl hcall
  obtain ⟨b₂, hb₂, hd₂⟩ := body?_shift_var hd₁ hl' hname
  obtain ⟨op, args, hslot⟩ := Body.slot_of_methodName (Body.slot_of_call hb₁) hb₂
  exact ⟨b₂, op, args, hd₂, hslot⟩

/-- A call with a destination takes arguments behind the name of the method. -/
theorem takesArguments_of_callInto {dest name : String} (hl : l.token = .phrase .callInto)
    (hl' : l'.token = .var dest) (hk : k.token = .var name)
    (hrun : d.run [l, l', k] = some d') : d'.TakesArguments := by
  obtain ⟨d₁, hcall, hrun⟩ := run_cons_eq_some_iff.1 hrun
  obtain ⟨d₂, hdest, hrun⟩ := run_cons_eq_some_iff.1 hrun
  obtain ⟨d₃, hname, hrun⟩ := run_cons_eq_some_iff.1 hrun
  obtain rfl := Option.some.inj hrun
  obtain ⟨b₀, b₁, hb₁, hd₁⟩ := body?_shift_opener rfl hl hcall
  obtain ⟨b₂, hb₂, hd₂⟩ := body?_shift_var hd₁ hl' hdest
  obtain ⟨b₃, hb₃, hd₃⟩ := body?_shift_var hd₂ hk hname
  have hslot₂ : b₂.slot = .callIntoName dest := by
    rw [Body.shift, Body.slot_of_callInto hb₁] at hb₂
    obtain rfl := Option.some.inj hb₂
    rfl
  have hslot₃ : ∃ op args, b₃.slot = .arguments op args := by
    rw [Body.shift, hslot₂] at hb₃
    obtain rfl := Option.some.inj hb₃
    exact ⟨_, _, rfl⟩
  obtain ⟨op, args, hslot₃⟩ := hslot₃
  exact ⟨b₃, op, args, hd₃, hslot₃⟩

/-- What ends open has been read as such. -/
theorem openEnded_of_endsOpen (hrun : start.run ls = some d)
    (h : Grammar.EndsOpen (ls.map Lexeme.token)) : d.openEnded = true := by
  generalize hts : ls.map Lexeme.token = ts at h
  cases h with
  | giveBack ts =>
    obtain ⟨ks, last, rfl, -, hlast⟩ := List.map_eq_append_iff.1 hts
    obtain ⟨l, rfl, hl⟩ := List.map_eq_singleton_iff.1 hlast
    obtain ⟨d₁, -, hshift⟩ := run_concat_eq_some_iff.1 hrun
    obtain ⟨b, b', hb', hd⟩ := body?_shift_opener rfl hl hshift
    rw [openEnded, hd, Option.any_some, Body.openEnded, Body.slot_of_giveBack hb']
  | call ts name hargs =>
    obtain ⟨ks, us, rfl, -, hus⟩ := List.map_eq_append_iff.1 hts
    obtain ⟨l, us, rfl, hl, hus⟩ := List.map_eq_cons_iff.1 hus
    obtain ⟨l', us, rfl, hl', hus⟩ := List.map_eq_cons_iff.1 hus
    obtain ⟨d₀, -, hrun⟩ := run_append_eq_some_iff.1 hrun
    obtain ⟨d₁, hcall, hrun⟩ := (@run_append_eq_some_iff _ _ [l, l']).1 hrun
    exact ((takesArguments_of_call hl hl' hcall).run hargs hus hrun).openEnded
  | callInto ts dest name hargs =>
    obtain ⟨ks, us, rfl, -, hus⟩ := List.map_eq_append_iff.1 hts
    obtain ⟨l, us, rfl, hl, hus⟩ := List.map_eq_cons_iff.1 hus
    obtain ⟨l', us, rfl, hl', hus⟩ := List.map_eq_cons_iff.1 hus
    obtain ⟨k, us, rfl, hk, hus⟩ := List.map_eq_cons_iff.1 hus
    obtain ⟨d₀, -, hrun⟩ := run_append_eq_some_iff.1 hrun
    obtain ⟨d₁, hcall, hrun⟩ := (@run_append_eq_some_iff _ _ [l, l', k]).1 hrun
    exact ((takesArguments_of_callInto hl hl' hk hcall).run hargs hus hrun).openEnded

/-- **A draft is open-ended where the tokens are.** -/
theorem openEnded_iff (hrun : start.run ls = some d) :
    d.openEnded = true ↔ Grammar.EndsOpen (ls.map Lexeme.token) := by
  have hreads : d.Reads (ls.map Lexeme.token) := Reads.start.run hrun
  exact ⟨hreads.endsOpen, openEnded_of_endsOpen hrun⟩

/-- A kind can come next if any token of the kind can. -/
theorem accepts_iff_viable (hrun : start.run ls = some d) {t : Token} {k : Terminal}
    (ht : t.terminal? = some k) :
    d.accepts k = true ↔ Viable (ls.map Lexeme.token ++ [t]) := by
  have hkind : k.sample.terminal? = t.terminal? := by rw [Terminal.terminal?_sample, ht]
  have hsame : d.accepts k = (d.shift t.unplaced).isSome := d.isSome_shift_congr hkind
  rw [hsame]
  exact (viable_concat_iff hrun t.unplaced).symm

end Draft
end Parser

open Showtime.Parser (Draft)

/-- **Syntax errors are reported at the first impossible token, with what could
have come.**  When a source is refused with "unexpected …", the tokens before the
reported one, or all tokens if the end of the input is reported, are the start of
a program; with the reported one they are not, or are no program as they stand.
The kinds that are offered are listed in the order of the manual, none twice, and
they are the kinds that could have come, but for operands that are left out after
a statement that may end or go on, when what came can follow a statement. -/
theorem syntax_error_at_first_impossible_token {source text : String} {span : Span}
    (h : Program.parse source = .error (.parser ("unexpected " ++ text) span)) :
    ∃ (found : Option Token) (expected : List Terminal) (before : List Token),
      text = (found.map Token.render).getD endText ++ ParseError.expectedClause expected ∧
      Viable before ∧
      (match found with
        | some t => ∃ ks l rest, (Lexer.ofSource source).stream.lexemes = ks ++ l :: rest ∧
            ks.map Lexeme.token = before ∧ l = { token := t, span } ∧ ¬ Viable (before ++ [t])
        | none => ∃ ls, tokenize source = .ok ls ∧ ls.map Lexeme.token = before ∧
            ¬ Derivable before) ∧
      expected.Sublist Terminal.all ∧ expected.Nodup ∧
      ∀ t k, t.terminal? = some k →
        (k ∈ expected ↔ Viable (before ++ [t]) ∧ ¬ Grammar.LeftOut before found k) := by
  obtain ⟨e, hread, herr⟩ := Program.parse_eq_error h
  obtain ⟨ks, rest, d, last, hls, hleads, hstops⟩ := Program.read_eq_error hread
  have hrun := hleads.run
  have hviable : Viable (ks.map Lexeme.token) := Draft.viable_iff_run.2 ⟨d, hrun⟩
  have htext {found : Option Token} {expected : List Terminal} {span' : Span}
      (herr : CompileError.parser ("unexpected " ++ text) span =
        (ParseError.unexpected found expected span').toCompileError) :
      text = (found.map Token.render).getD endText ++ ParseError.expectedClause expected ∧
        span = span' := by
    obtain ⟨hmessage, hspan⟩ := CompileError.parser.inj herr
    rw [String.append_assoc] at hmessage
    exact ⟨(String.append_right_inj _).1 hmessage, hspan⟩
  -- the other kinds of errors are told in other words
  cases hstops with
  | fault hfault => cases herr
  | repeatedAtEnd hfault hfinish hrepeated =>
    exact absurd (CompileError.parser.inj herr).1.symm (duplicate_ne_unexpected _ _)
  | repeatedBefore hshift hrepeated =>
    exact absurd (CompileError.parser.inj herr).1.symm (duplicate_ne_unexpected _ _)
  | unfinished hfault hfinish =>
    refine ⟨none, d.nextKinds, ks.map Lexeme.token, (htext herr).1, hviable, ⟨ks, ?_, rfl, ?_⟩,
      List.filter_sublist, Terminal.nodup_all.sublist List.filter_sublist, fun t k ht => ?_⟩
    · rw [tokenize_eq_ok_iff, hls, List.append_nil]
      exact ⟨hfault, rfl⟩
    · rw [Draft.derivable_iff_finish? hrun, hfinish]
      exact Bool.false_ne_true
    · have hkept : ¬ Grammar.LeftOut (ks.map Lexeme.token) none k := by
        rintro ⟨-, -, p, hp, -⟩
        cases hp
      rw [Draft.mem_nextKinds, Draft.accepts_iff_viable hrun ht, and_iff_left hkept]
  | @impossible l rest hshift =>
    obtain ⟨hsubject, rfl⟩ := htext herr
    have hmem : l ∈ (Lexer.ofSource source).stream.lexemes := by simp [hls]
    rw [Lexer.place_of_mem_stream hmem]
    refine ⟨some l.token, d.expectedFor l.token, ks.map Lexeme.token, hsubject, hviable,
      ⟨ks, l, rest, hls, rfl, rfl, ?_⟩, d.sublist_expectedFor l.token,
      Terminal.nodup_all.sublist (d.sublist_expectedFor l.token), fun t k ht => ?_⟩
    · rw [Draft.viable_concat_iff hrun, hshift]
      exact Bool.false_ne_true
    · rw [Draft.mem_expectedFor, Draft.accepts_iff_viable hrun ht, Draft.openEnded_iff hrun]
      rfl

/-- After a call with an argument a loop cannot end, as none is open; the words
do not mention that one more argument could have come. -/
theorem stray_loop_end :
    ∃ text, Program.parse "IT'S SHOWTIME\nDO IT NOW f 1\nCHILL\n" =
        .error (.parser ("unexpected " ++ text) { start := 28, stop := 33, line := 3, column := 1 }) ∧
      ∃ (found : Option Token) (expected : List Terminal) (before : List Token),
        text = (found.map Token.render).getD endText ++ ParseError.expectedClause expected ∧
        Viable before ∧ expected.Sublist Terminal.all ∧
        ∀ t k, t.terminal? = some k →
          (k ∈ expected ↔ Viable (before ++ [t]) ∧ ¬ Grammar.LeftOut before found k) := by
  have hparse : Program.parse "IT'S SHOWTIME\nDO IT NOW f 1\nCHILL\n" =
      .error (.parser ("unexpected " ++ ("\"CHILL\", expected one of \"YOU HAVE BEEN TERMINATED\", " ++
        "\"I'LL BE BACK\", \"DO IT NOW\", \"GET YOUR ASS TO MARS\", \"TALK TO THE HAND\", " ++
        "\"HEY CHRISTMAS TREE\", \"GET TO THE CHOPPER\", \"BECAUSE I'M GOING TO SAY PLEASE\", " ++
        "\"STICK AROUND\"")) { start := 28, stop := 33, line := 3, column := 1 }) := by
    decide +kernel
  obtain ⟨found, expected, before, htext, hviable, -, hsublist, -, hkinds⟩ :=
    syntax_error_at_first_impossible_token hparse
  exact ⟨_, hparse, found, expected, before, htext, hviable, hsublist, hkinds⟩

end Showtime
