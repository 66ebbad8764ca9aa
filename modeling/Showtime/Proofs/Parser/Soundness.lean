/-
# What is read is derived

A body stands for the tokens that led to it.  They fall into three parts
(`Body.Reads`): what the blocks around the point of reading have taken, the
statements that are complete, and the statement that is begun.  One more token
keeps this true (`Body.Reads.shift`), and a body that can end is a list of
statements of the grammar (`Body.Reads.close?`).

A draft stands for its tokens alike (`Draft.Reads`), so a draft that can end is
a program of the grammar (`Draft.Reads.finish?`).
-/

import Showtime.Proofs.Parser.Grammar

namespace Showtime
namespace Parser

open Grammar (Star)

/-! ### Single tokens -/

section

variable {β : Type} {t : Token} {b : β}

/-- A token that is taken where an operand can come is one. -/
theorem operand_of_map {f : Value → β} (h : (operand? t).map f = some b) :
    ∃ v, Grammar.Operand [t] v ∧ f v = b := by
  obtain ⟨v, hv, hb⟩ := Option.map_eq_some_iff.1 h
  exact ⟨v, Grammar.operand_iff.2 ⟨t, rfl, hv⟩, hb⟩

/-- A token that is taken where a name can come is one. -/
theorem name_of_map {f : String → β} (h : (name? t).map f = some b) :
    ∃ name, t = .var name ∧ f name = b := by
  obtain ⟨name, hname, hb⟩ := Option.map_eq_some_iff.1 h
  exact ⟨name, Grammar.name?_eq_some_iff.1 hname, hb⟩

end

/-! ### The statement that is begun -/

/-- The tokens of the statement that is begun. -/
inductive Slot.Reads : Slot → List Token → Prop
  | ready : Reads .ready []
  | print : Reads .print [.phrase .print]
  | declare : Reads .declare [.phrase .declare]
  | declareName (name : String) : Reads (.declareName name) [.phrase .declare, .var name]
  | declareValue (name : String) :
    Reads (.declareValue name) [.phrase .declare, .var name, .phrase .initialValue]
  | assign : Reads .assign [.phrase .assign]
  | assignName (name : String) : Reads (.assignName name) [.phrase .assign, .var name]
  | assignFirst (name : String) :
    Reads (.assignFirst name) [.phrase .assign, .var name, .phrase .firstOperand]
  | fold {name ts seed us folds} (hseed : Grammar.Operand ts seed)
    (hfolds : Star Grammar.Fold us folds) :
    Reads (.fold name (folds.reverse ++ [.expression .firstOperand [seed]]))
      (.phrase .assign :: .var name :: .phrase .firstOperand :: (ts ++ us))
  | foldOperand {name ts seed us folds vs op} (hseed : Grammar.Operand ts seed)
    (hfolds : Star Grammar.Fold us folds) (hop : Grammar.FoldOp vs op) :
    Reads (.foldOperand name (folds.reverse ++ [.expression .firstOperand [seed]]) op)
      (.phrase .assign :: .var name :: .phrase .firstOperand :: (ts ++ us ++ vs))
  | branch : Reads .branch [.phrase .branch]
  | loop : Reads .loop [.phrase .loop]
  | call : Reads .call [.phrase .call]
  | callInto : Reads .callInto [.phrase .callInto]
  | callIntoName (name : String) : Reads (.callIntoName name) [.phrase .callInto, .var name]
  | callIntoMethod (name : String) :
    Reads (.callIntoMethod name) [.phrase .callInto, .var name, .phrase .call]
  /-- What is begun is a statement already, with any arguments. -/
  | arguments {op ts vs us args}
    (hstatement : ∀ {us args}, Star Grammar.Operand us args →
      Grammar.Statement (ts ++ us) (.expression op (vs ++ args)))
    (hargs : Star Grammar.Operand us args) :
    Reads (.arguments op (args.reverse ++ vs.reverse)) (ts ++ us)
  | giveBack : Reads .giveBack [.phrase .giveBack]

/-- The first token of a statement. -/
theorem Slot.reads_opened {p : Phrase} {slot : Slot} (h : opened? p = some slot) :
    slot.Reads [.phrase p] := by
  cases p <;> cases h <;> constructor

/-- A call without arguments so far. -/
theorem Slot.reads_arguments {op : Op} {ts : List Token} {vs : List Value}
    (h : ∀ {us args}, Star Grammar.Operand us args →
      Grammar.Statement (ts ++ us) (.expression op (vs ++ args))) :
    (Slot.arguments op vs.reverse).Reads ts := by
  have hslot := Slot.Reads.arguments h .nil
  rwa [List.append_nil] at hslot

/-! ### The blocks around it -/

/-- The tokens that opened blocks have taken, with the statements before them. -/
inductive Opened : List Frame → List Token → Prop
  | nil : Opened [] []
  | trueBranch {frames ts us before vs test} (houter : Opened frames ts)
    (hbefore : Star Grammar.Statement us before.reverse) (htest : Grammar.Operand vs test) :
    Opened (.trueBranch test before :: frames) (ts ++ us ++ .phrase .branch :: vs)
  | falseBranch {frames ts us before vs test ws then_} (houter : Opened frames ts)
    (hbefore : Star Grammar.Statement us before.reverse) (htest : Grammar.Operand vs test)
    (hthen : Star Grammar.Statement ws then_) :
    Opened (.falseBranch test then_ before :: frames)
      (ts ++ us ++ .phrase .branch :: (vs ++ ws ++ [.phrase .otherwise]))
  | loop {frames ts us before vs test} (houter : Opened frames ts)
    (hbefore : Star Grammar.Statement us before.reverse) (htest : Grammar.Operand vs test) :
    Opened (.loop test before :: frames) (ts ++ us ++ .phrase .loop :: vs)

namespace Body

/-- **The tokens that a body stands for.** -/
inductive Reads : Body → List Token → Prop
  | mk {frames done slot ts us vs} (hframes : Opened frames ts)
    (hdone : Star Grammar.Statement us done.reverse) (hslot : slot.Reads vs) :
    Reads { frames, done, slot } (ts ++ us ++ vs)

section

variable {frames : List Frame} {done : List Statement} {slot : Slot} {ts us vs : List Token}
  {t : Token} {b b' : Body}

/-- A block has just been opened. -/
theorem reads_of_opened (h : Opened frames ts) :
    Reads { frames, done := [], slot := .ready } ts := by
  have hreads := @Reads.mk frames [] .ready ts [] [] h .nil .ready
  rwa [List.append_nil, List.append_nil] at hreads

/-- The statement that is begun has got further. -/
theorem Reads.advance (hframes : Opened frames ts)
    (hdone : Star Grammar.Statement us done.reverse) (hslot : slot.Reads (vs ++ [t])) :
    Reads { frames, done, slot } (ts ++ us ++ vs ++ [t]) := by
  rw [List.append_assoc (ts ++ us)]
  exact .mk hframes hdone hslot

/-- The statement that is begun is complete. -/
theorem Reads.complete {s : Statement} (hframes : Opened frames ts)
    (hdone : Star Grammar.Statement us done.reverse) (hs : Grammar.Statement vs s) :
    Reads { frames, done := s :: done, slot := .ready } (ts ++ us ++ vs) := by
  have hall : Star Grammar.Statement (us ++ vs) (s :: done).reverse := by
    rw [List.reverse_cons]
    exact hdone.concat hs
  have hreads := Reads.mk hframes hall .ready
  rwa [List.append_nil, ← List.append_assoc] at hreads

/-- Completing a statement takes no token. -/
theorem Reads.settle (h : b.Reads ts) : b.settle.Reads ts := by
  obtain ⟨hframes, hdone, hslot⟩ := h
  cases hslot with
  | @arguments op _ vs _ args hstatement hargs =>
    have hs := hstatement hargs
    have hreverse : vs ++ args = (args.reverse ++ vs.reverse).reverse := by simp
    rw [hreverse] at hs
    exact .complete hframes hdone hs
  | giveBack => exact .complete hframes hdone .giveBack
  | ready => exact .mk hframes hdone .ready
  | _ => exact .mk hframes hdone (by constructor <;> assumption)

/-- A phrase where a statement can begin or a block can end. -/
theorem Reads.shiftReady (hframes : Opened frames ts)
    (hdone : Star Grammar.Statement us done.reverse) {p : Phrase}
    (h : shiftReady { frames, done, slot := .ready } p = some b') :
    b'.Reads (ts ++ us ++ [.phrase p]) := by
  unfold Body.shiftReady at h
  split at h
  · next hopened =>
    obtain rfl := Option.some.inj h
    exact .mk hframes hdone (Slot.reads_opened hopened)
  · next heq _ =>
    obtain rfl : frames = _ := heq
    obtain rfl := Option.some.inj h
    obtain _ | ⟨houter, hbefore, htest⟩ := hframes
    have hopened := reads_of_opened (.falseBranch houter hbefore htest hdone)
    simpa using hopened
  · next heq _ =>
    obtain rfl : frames = _ := heq
    obtain rfl := Option.some.inj h
    obtain _ | ⟨houter, hbefore, htest⟩ := hframes
    have hreads := Reads.complete houter hbefore (.conditional htest hdone)
    simpa [push, conditional] using hreads
  · next heq _ =>
    obtain rfl : frames = _ := heq
    obtain rfl := Option.some.inj h
    obtain _ | _ | ⟨houter, hbefore, htest, hthen⟩ := hframes
    have hreads := Reads.complete houter hbefore (.conditionalElse htest hthen hdone)
    simpa [push, conditional] using hreads
  · next heq _ =>
    obtain rfl : frames = _ := heq
    obtain rfl := Option.some.inj h
    obtain _ | _ | _ | ⟨houter, hbefore, htest⟩ := hframes
    have hreads := Reads.complete houter hbefore (.loop htest hdone)
    simpa [push] using hreads
  · cases h

/-- A token that continues no statement. -/
theorem Reads.shiftNext (h : b.Reads ts) (hrests : b.settle.slot = .ready)
    (hshift : b.shiftNext t = some b') : b'.Reads (ts ++ [t]) := by
  have hsettle := h.settle
  cases t with
  | phrase p =>
    rw [Body.shiftNext] at hshift
    generalize b.settle = b₁ at hsettle hrests hshift
    obtain ⟨hframes, hdone, hslot⟩ := hsettle
    obtain rfl := hrests
    obtain ⟨⟩ := hslot
    rw [List.append_nil]
    exact .shiftReady hframes hdone hshift
  | _ => cases hshift

/-- A body that waits for a phrase takes this phrase only. -/
theorem expect_eq_some {p : Phrase} (h : b.expect p slot t = some b') :
    t = .phrase p ∧ b' = { b with slot } := by
  unfold expect at h
  split at h
  · next ht => exact ⟨ht, (Option.some.inj h).symm⟩
  · cases h

/-- **One more token.** -/
theorem Reads.shift (h : b.Reads ts) (hshift : b.shift t = some b') : b'.Reads (ts ++ [t]) := by
  -- the blocks and the complete statements stay, unless the token ends a block
  obtain ⟨hframes, hdone, hslot⟩ := h
  cases hslot with
  | ready => exact (Reads.mk hframes hdone .ready).shiftNext rfl hshift
  | print =>
    obtain ⟨v, hv, rfl⟩ := Option.map_eq_some_iff.1 hshift
    have hvalue : Grammar.Printable [t] v := Grammar.printable_iff.2 ⟨t, rfl, hv⟩
    rw [List.append_assoc]
    exact .complete hframes hdone (.print hvalue)
  | declare =>
    obtain ⟨name, rfl, rfl⟩ := name_of_map hshift
    exact .advance hframes hdone (.declareName name)
  | declareName name =>
    obtain ⟨rfl, rfl⟩ := expect_eq_some hshift
    exact .advance hframes hdone (.declareValue name)
  | declareValue name =>
    obtain ⟨v, hv, rfl⟩ := Option.map_eq_some_iff.1 hshift
    have hinit : Grammar.Literal [t] v := Grammar.literal_iff.2 ⟨t, rfl, hv⟩
    rw [List.append_assoc]
    exact .complete hframes hdone (.declare hinit)
  | assign =>
    obtain ⟨name, rfl, rfl⟩ := name_of_map hshift
    exact .advance hframes hdone (.assignName name)
  | assignName name =>
    obtain ⟨rfl, rfl⟩ := expect_eq_some hshift
    exact .advance hframes hdone (.assignFirst name)
  | assignFirst name =>
    obtain ⟨v, hseed, rfl⟩ := operand_of_map hshift
    exact .advance hframes hdone (.fold hseed .nil)
  | @fold name us seed vs folds hseed hfolds =>
    simp only [Body.shift] at hshift
    split at hshift
    · obtain rfl := Option.some.inj hshift
      have hs : Grammar.Statement
          (.phrase .assign :: .var name :: .phrase .firstOperand ::
            (us ++ vs ++ [.phrase .assignEnd]))
          (assignment name (.expression .firstOperand [seed] :: folds)) := .assignment hseed hfolds
      have hcomplete := Reads.complete hframes hdone hs
      simpa [push] using hcomplete
    · obtain ⟨op, hop, rfl⟩ := Option.map_eq_some_iff.1 hshift
      have hop := Grammar.foldOp_iff.2 ⟨_, rfl, hop⟩
      exact .advance hframes hdone (.foldOperand hseed hfolds hop)
    · cases hshift
  | @foldOperand name us seed vs folds ws op hseed hfolds hop =>
    obtain ⟨v, hoperand, rfl⟩ := operand_of_map hshift
    have hslot : (Slot.fold name _).Reads _ :=
      .fold hseed (hfolds.concat (.mk hop hoperand))
    refine .advance hframes hdone ?_
    simpa using hslot
  | branch =>
    obtain ⟨v, htest, rfl⟩ := operand_of_map hshift
    rw [List.append_assoc]
    exact reads_of_opened (.trueBranch hframes hdone htest)
  | loop =>
    obtain ⟨v, htest, rfl⟩ := operand_of_map hshift
    rw [List.append_assoc]
    exact reads_of_opened (.loop hframes hdone htest)
  | call =>
    obtain ⟨name, rfl, rfl⟩ := name_of_map hshift
    exact .advance hframes hdone
      (@Slot.reads_arguments _ [.phrase .call, .var name] [.var name] .call)
  | callInto =>
    obtain ⟨name, rfl, rfl⟩ := name_of_map hshift
    exact .advance hframes hdone (.callIntoName name)
  | callIntoName dest =>
    simp only [Body.shift] at hshift
    split at hshift
    · obtain rfl := Option.some.inj hshift
      exact .advance hframes hdone (.callIntoMethod dest)
    · obtain ⟨name, rfl, rfl⟩ := name_of_map hshift
      exact .advance hframes hdone (@Slot.reads_arguments _
        [.phrase .callInto, .var dest, .var name] [.var dest, .var name] .callInto)
  | callIntoMethod dest =>
    obtain ⟨name, rfl, rfl⟩ := name_of_map hshift
    exact .advance hframes hdone (@Slot.reads_arguments _
      [.phrase .callInto, .var dest, .phrase .call, .var name] [.var dest, .var name] .callIntoCall)
  | arguments hstatement hargs =>
    -- what is no argument ends the call
    simp only [Body.shift] at hshift
    split at hshift
    · next v hv =>
      obtain rfl := Option.some.inj hshift
      have hoperand : Grammar.Operand [t] v := Grammar.operand_iff.2 ⟨t, rfl, hv⟩
      have hslot := Slot.Reads.arguments hstatement (hargs.concat hoperand)
      refine .advance hframes hdone ?_
      simpa using hslot
    · exact (Reads.mk hframes hdone (.arguments hstatement hargs)).shiftNext rfl hshift
  | giveBack =>
    simp only [Body.shift] at hshift
    split at hshift
    · next v hv =>
      obtain rfl := Option.some.inj hshift
      have hvalue : Grammar.Operand [t] v := Grammar.operand_iff.2 ⟨t, rfl, hv⟩
      rw [List.append_assoc]
      exact .complete hframes hdone (.giveBackValue hvalue)
    · exact (Reads.mk hframes hdone .giveBack).shiftNext rfl hshift

/-- **A body that can end is a list of statements.** -/
theorem Reads.close? {ss : List Statement} (h : b.Reads ts) (hclose : b.close? = some ss) :
    Star Grammar.Statement ts ss := by
  have hsettle := h.settle
  unfold Body.close? at hclose
  split at hclose
  · next hb =>
    obtain rfl := Option.some.inj hclose
    rw [hb] at hsettle
    obtain ⟨hframes, hdone, hslot⟩ := hsettle
    obtain ⟨⟩ := hframes
    obtain ⟨⟩ := hslot
    simpa using hdone
  · cases hclose

end

end Body

/-! ### Programs -/

namespace Draft

/-- **The tokens that a draft stands for.** -/
inductive Reads : Draft → List Token → Prop
  | start : Reads .start []
  | main {body ts} (hbody : body.Reads ts) : Reads (.main body) (.phrase .mainOpen :: ts)
  | closed {f ts} (h : Grammar.Program ts f.toProgram) : Reads (.closed f) ts
  | naming {f ts} (h : Grammar.Program ts f.toProgram) :
    Reads (.naming f) (ts ++ [.phrase .methodOpen])
  | header {f ts name us params} (h : Grammar.Program ts f.toProgram)
    (hparams : Star Grammar.Param us (params.map Param.name).reverse) :
    Reads (.header f name params) (ts ++ .phrase .methodOpen :: .var name :: us)
  | param {f ts name us params} (h : Grammar.Program ts f.toProgram)
    (hparams : Star Grammar.Param us (params.map Param.name).reverse) :
    Reads (.param f name params)
      (ts ++ .phrase .methodOpen :: .var name :: (us ++ [.phrase .parameter]))
  | method {f ts name us params body vs} (h : Grammar.Program ts f.toProgram)
    (hparams : Grammar.Params us (params.map Param.name).reverse) (hbody : body.Reads vs) :
    Reads (.method f name params body) (ts ++ .phrase .methodOpen :: .var name :: (us ++ vs))

section

variable {d d' : Draft} {ts us vs : List Token} {t : Token} {f : Finished} {name : String}
  {params : List Param} {body : Body}

/-- A token inside the entry method. -/
theorem Reads.shiftMain (hbody : body.Reads ts) (hshift : shiftMain body t = some d') :
    d'.Reads (.phrase .mainOpen :: (ts ++ [t])) := by
  unfold Draft.shiftMain at hshift
  split at hshift
  · obtain ⟨main, hclose, rfl⟩ := Option.map_eq_some_iff.1 hshift
    have hmain : Grammar.MainMethod _ (.main main) := .mk (hbody.close? hclose)
    have hprogram := Grammar.Program.mk hmain .nil
    rw [List.append_nil] at hprogram
    exact .closed hprogram
  · obtain ⟨body', hnext, rfl⟩ := Option.map_eq_some_iff.1 hshift
    exact .main (hbody.shift hnext)

/-- A token inside a named method. -/
theorem Reads.shiftMethod (h : Grammar.Program ts f.toProgram)
    (hparams : Grammar.Params us (params.map Param.name).reverse) (hbody : body.Reads vs)
    (hshift : shiftMethod f name params body t = some d') :
    d'.Reads (ts ++ .phrase .methodOpen :: .var name :: (us ++ vs ++ [t])) := by
  unfold Draft.shiftMethod at hshift
  split at hshift
  · obtain ⟨ss, hclose, rfl⟩ := Option.map_eq_some_iff.1 hshift
    have hmethod : Grammar.MethodDef
        (.phrase .methodOpen :: .var name :: (us ++ vs ++ [.phrase .methodClose]))
        (Definition.toMethod { name, params := params.reverse, body := ss }) := by
      rw [Definition.toMethod, List.map_reverse]
      exact .mk hparams (hbody.close? hclose)
    have hprogram := h.concat hmethod
    refine .closed ?_
    simpa [Finished.toProgram] using hprogram
  · obtain ⟨body', hnext, rfl⟩ := Option.map_eq_some_iff.1 hshift
    rw [List.append_assoc]
    exact .method h hparams (hbody.shift hnext)

/-- **One more token.** -/
theorem Reads.shift {l : Lexeme} (h : d.Reads ts) (hshift : d.shift l = some d') :
    d'.Reads (ts ++ [l.token]) := by
  have hempty : Body.empty.Reads [] := Body.reads_of_opened .nil
  cases h with
  | start =>
    simp only [Draft.shift] at hshift
    split at hshift
    · next hl =>
      obtain rfl := Option.some.inj hshift
      rw [hl]
      exact .main hempty
    · cases hshift
  | main hbody => exact .shiftMain hbody hshift
  | closed h =>
    simp only [Draft.shift] at hshift
    split at hshift
    · next hl =>
      obtain rfl := Option.some.inj hshift
      rw [hl]
      exact .naming h
    · cases hshift
  | naming h =>
    obtain ⟨name, hname, rfl⟩ := name_of_map hshift
    rw [hname, List.append_assoc]
    exact .header h .nil
  | @header f us name vs params h hparams =>
    simp only [Draft.shift] at hshift
    split at hshift
    · next hl =>
      obtain rfl := Option.some.inj hshift
      rw [hl, List.append_assoc]
      exact .param h hparams
    · next hl =>
      obtain rfl := Option.some.inj hshift
      have hclosed : Grammar.Params (vs ++ [.phrase .parametersEnd]) _ :=
        Grammar.params_iff.2 ⟨vs, hparams, .inr rfl⟩
      have hmethod : (Draft.method f name params .empty).Reads _ := .method h hclosed hempty
      rw [hl]
      simpa using hmethod
    · have hparams := Grammar.params_iff.2 ⟨vs, hparams, .inl rfl⟩
      have hmethod := Reads.shiftMethod h hparams hempty hshift
      simpa using hmethod
  | @param f us name vs params h hparams =>
    obtain ⟨x, hx, rfl⟩ := name_of_map hshift
    have hmore := hparams.concat (.mk x)
    rw [hx]
    have hheader : (Draft.header f name
        ({ name := x, start := l.span.start, stop := l.span.stop } :: params)).Reads _ :=
      .header h (by simpa using hmore)
    simpa using hheader
  | method h hparams hbody =>
    have hmethod := Reads.shiftMethod h hparams hbody hshift
    simpa using hmethod

/-- **A draft that can end is a program.** -/
theorem Reads.finish? {p : Program} (h : d.Reads ts) (hfinish : d.finish? = some p) :
    Grammar.Program ts p := by
  cases h with
  | closed h =>
    obtain rfl := Option.some.inj hfinish
    exact h
  | _ => cases hfinish

end

end Draft
end Parser
end Showtime
