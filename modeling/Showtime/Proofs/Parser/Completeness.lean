/-
# What the grammar derives is read

A body rests where a statement may begin: nothing is begun, or what is begun may
end here.  From a body at rest the tokens of a statement lead to a body at rest
that has the statement (`run_statement`); blocks are entered and left on the
way.  Methods and programs follow (`run_program`).
-/

import Showtime.Proofs.Parser.Grammar

namespace Showtime
namespace Parser

open Grammar (Star Plus)

namespace Body

/-- Takes tokens, as long as they can come next. -/
def run (b : Body) (ts : List Token) : Option Body :=
  ts.foldlM shift b

/-- A body is read on from where its first token leads. -/
theorem run_cons {b b' : Body} {t : Token} (h : b.shift t = some b') (ts : List Token) :
    b.run (t :: ts) = b'.run ts := by
  rw [run, List.foldlM_cons, h]
  rfl

/-- A body is read on from where its first tokens lead. -/
theorem run_append {b b' : Body} {ts : List Token} (h : b.run ts = some b') (us : List Token) :
    b.run (ts ++ us) = b'.run us := by
  rw [run, List.foldlM_append, show ts.foldlM shift b = some b' from h]
  rfl

/-- A statement may begin or a block may end here, after these statements. -/
def Rests (b : Body) (frames : List Frame) (done : List Statement) : Prop :=
  b.settle = { frames, done, slot := .ready }

/-- A body with no statement begun rests as it is. -/
theorem rests_ready (frames : List Frame) (done : List Statement) :
    Rests { frames, done, slot := .ready } frames done := rfl

variable {b : Body} {frames : List Frame} {done : List Statement}

/-- A phrase at rest completes what is begun. -/
theorem Rests.shift_phrase (h : b.Rests frames done) (p : Phrase) :
    b.shift (.phrase p) = shiftReady { frames, done, slot := .ready } p := by
  rw [← h]
  obtain ⟨frames', done', slot⟩ := b
  cases slot with
  | ready => rfl
  | arguments op args => rfl
  | giveBack => rfl
  | _ => cases h

/-- At rest a phrase that begins a statement begins one. -/
theorem Rests.shift_opened (h : b.Rests frames done) {p : Phrase} {slot : Slot}
    (hslot : opened? p = some slot) : b.shift (.phrase p) = some { frames, done, slot } := by
  rw [h.shift_phrase]
  simp only [shiftReady, hslot]

/-- The arguments of a call. -/
theorem run_arguments {ts : List Token} {vs : List Value} (h : Star Grammar.Operand ts vs)
    (op : Op) (args : List Value) :
    run { frames, done, slot := .arguments op args } ts =
      some { frames, done, slot := .arguments op (vs.reverse ++ args) } := by
  induction h generalizing args with
  | nil => rfl
  | cons head _ ih =>
    obtain ⟨t, rfl, ht⟩ := Grammar.operand_iff.1 head
    rw [List.singleton_append, run_cons (by simp only [shift, ht]; rfl), ih]
    simp

/-- The folds of an assignment. -/
theorem run_folds {ts : List Token} {folds : List Statement} (h : Star Grammar.Fold ts folds)
    (name : String) (before : List Statement) :
    run { frames, done, slot := .fold name before } ts =
      some { frames, done, slot := .fold name (folds.reverse ++ before) } := by
  induction h generalizing before with
  | nil => rfl
  | cons head _ ih =>
    obtain @⟨_, _, op, v, hop, hoperand⟩ := head
    obtain ⟨p, rfl, hp⟩ := Grammar.foldOp_iff.1 hop
    obtain ⟨t, rfl, ht⟩ := Grammar.operand_iff.1 hoperand
    have hshift : shift { frames, done, slot := .fold name before } (.phrase p) =
        some { frames, done, slot := .foldOperand name before op } := by
      cases p <;> cases hp <;> rfl
    rw [List.append_assoc, List.singleton_append, List.singleton_append, run_cons hshift,
      run_cons (by simp only [shift, ht]; rfl), ih]
    simp

/-- A block, up to the statements that it owns: a phrase and a test. -/
theorem Rests.run_enter (hb : b.Rests frames done) {p : Phrase} {slot : Slot}
    (hslot : opened? p = some slot) {frame : Value → Frame}
    (hshift : ∀ t, shift { frames, done, slot } t =
      (operand? t).map fun v => enter { frames, done, slot } (frame v))
    {ts : List Token} {test : Value} (htest : Grammar.Operand ts test) (us : List Token) :
    b.run (.phrase p :: (ts ++ us)) =
      run { frames := frame test :: frames, done := [], slot := .ready } us := by
  obtain ⟨t, rfl, ht⟩ := Grammar.operand_iff.1 htest
  rw [run_cons (hb.shift_opened hslot), List.singleton_append, run_cons (by rw [hshift, ht]; rfl)]
  rfl

mutual

/-- **A statement is read.** -/
theorem run_statement {ts : List Token} {s : Statement} (h : Grammar.Statement ts s) {b : Body}
    {frames : List Frame} {done : List Statement} (hb : b.Rests frames done) :
    ∃ b', b.run ts = some b' ∧ b'.Rests frames (s :: done) := by
  -- each form is read token by token, and leaves the body at rest with one statement more
  cases h with
  | print hvalue =>
    obtain ⟨t, rfl, ht⟩ := Grammar.printable_iff.1 hvalue
    rw [run_cons (hb.shift_opened rfl), run_cons (by simp only [shift, ht]; rfl)]
    exact ⟨_, rfl, rfl⟩
  | declare hinit =>
    obtain ⟨t, rfl, ht⟩ := Grammar.literal_iff.1 hinit
    rw [run_cons (hb.shift_opened rfl), run_cons rfl, run_cons rfl,
      run_cons (by simp only [shift, ht]; rfl)]
    exact ⟨_, rfl, rfl⟩
  | assignment hseed hfolds =>
    obtain ⟨t, rfl, ht⟩ := Grammar.operand_iff.1 hseed
    rw [run_cons (hb.shift_opened rfl), run_cons rfl, run_cons rfl, List.append_assoc,
      List.singleton_append, run_cons (by simp only [shift, ht]; rfl),
      run_append (run_folds hfolds _ _), run_cons rfl]
    refine ⟨_, rfl, ?_⟩
    simp [Rests, push, settle, assignment]
  | conditional htest hthen =>
    obtain ⟨b₁, hrun, hb₁⟩ := run_statements hthen (rests_ready (.trueBranch _ done :: frames) [])
    rw [List.append_assoc, hb.run_enter rfl (fun _ => rfl) htest, run_append hrun,
      run_cons (hb₁.shift_phrase _)]
    refine ⟨_, rfl, ?_⟩
    simp [Rests, push, settle, conditional]
  | conditionalElse htest hthen helse =>
    obtain ⟨b₁, hrun₁, hb₁⟩ := run_statements hthen (rests_ready (.trueBranch _ done :: frames) [])
    obtain ⟨b₂, hrun₂, hb₂⟩ :=
      run_statements helse (rests_ready (.falseBranch _ _ done :: frames) [])
    rw [List.append_assoc, hb.run_enter rfl (fun _ => rfl) htest, run_append hrun₁,
      run_cons (hb₁.shift_phrase _), run_append hrun₂, run_cons (hb₂.shift_phrase _)]
    refine ⟨_, rfl, ?_⟩
    simp [Rests, push, settle, conditional]
  | loop htest hbody =>
    obtain ⟨b₁, hrun, hb₁⟩ := run_statements hbody (rests_ready (.loop _ done :: frames) [])
    rw [List.append_assoc, hb.run_enter rfl (fun _ => rfl) htest, run_append hrun,
      run_cons (hb₁.shift_phrase _)]
    refine ⟨_, rfl, ?_⟩
    simp [Rests, push, settle]
  | call hargs =>
    rw [run_cons (hb.shift_opened rfl), run_cons rfl, run_arguments hargs]
    refine ⟨_, rfl, ?_⟩
    simp [Rests, push, settle]
  | callInto hargs =>
    rw [run_cons (hb.shift_opened rfl), run_cons rfl, run_cons rfl, run_arguments hargs]
    refine ⟨_, rfl, ?_⟩
    simp [Rests, push, settle]
  | callIntoCall hargs =>
    rw [run_cons (hb.shift_opened rfl), run_cons rfl, run_cons rfl, run_cons rfl,
      run_arguments hargs]
    refine ⟨_, rfl, ?_⟩
    simp [Rests, push, settle]
  | giveBack =>
    rw [run_cons (hb.shift_opened rfl)]
    exact ⟨_, rfl, rfl⟩
  | giveBackValue hvalue =>
    obtain ⟨t, rfl, ht⟩ := Grammar.operand_iff.1 hvalue
    rw [run_cons (hb.shift_opened rfl), run_cons (by simp only [shift, ht]; rfl)]
    exact ⟨_, rfl, rfl⟩
termination_by sizeOf s

/-- Statements are read one after the other and are put on top of those that are done.
-/
theorem run_statements {ts : List Token} {ss : List Statement} (h : Star Grammar.Statement ts ss)
    {b : Body} {frames : List Frame} {done : List Statement} (hb : b.Rests frames done) :
    ∃ b', b.run ts = some b' ∧ b'.Rests frames (ss.reverse ++ done) := by
  cases h with
  | nil => exact ⟨b, rfl, hb⟩
  | cons head tail =>
    obtain ⟨b₁, hrun₁, hb₁⟩ := run_statement head hb
    obtain ⟨b₂, hrun₂, hb₂⟩ := run_statements tail hb₁
    refine ⟨b₂, ?_, ?_⟩
    · rw [run_append hrun₁, hrun₂]
    · simpa using hb₂
termination_by sizeOf ss

end

/-- A body at rest with no block open can be closed. -/
theorem Rests.close? (h : b.Rests [] done) : b.close? = some done.reverse := by
  rw [Body.close?, h]

/-- The phrases around a body are no part of it. -/
theorem shift_outer (b : Body) {p : Phrase}
    (hp : p ∈ [Phrase.mainClose, .methodOpen, .methodClose]) : b.shift (.phrase p) = none := by
  obtain ⟨frames, done, slot⟩ := b
  simp only [List.mem_cons, List.not_mem_nil, or_false] at hp
  rcases hp with rfl | rfl | rfl <;> cases slot <;> rfl

end Body

namespace Draft

/-- Takes tokens, as long as they can come next. -/
def run (d : Draft) (ls : List Lexeme) : Option Draft :=
  ls.foldlM shift d

/-- A draft is read on from where its first token leads. -/
theorem run_cons {d d' : Draft} {l : Lexeme} (h : d.shift l = some d') (ls : List Lexeme) :
    d.run (l :: ls) = d'.run ls := by
  rw [run, List.foldlM_cons, h]
  rfl

/-- A draft is read on from where its first tokens lead. -/
theorem run_append {d d' : Draft} {ls : List Lexeme} (h : d.run ls = some d') (ks : List Lexeme) :
    d.run (ls ++ ks) = d'.run ks := by
  rw [run, List.foldlM_append, show ls.foldlM shift d = some d' from h]
  rfl

/-! ### Bodies of methods -/

/-- What the body of the entry method takes, the draft takes; no body takes the phrase
that ends it. -/
theorem shift_main {b b' : Body} {l : Lexeme} (h : b.shift l.token = some b') :
    (main b).shift l = some (main b') := by
  have hopen : l.token ≠ .phrase .mainClose := by
    intro hclose
    rw [hclose, b.shift_outer (by decide)] at h
    cases h
  rw [shift, shiftMain, h]
  · rfl
  · exact hopen

/-- What the body of a named method takes, the draft takes; no body takes the phrase
that ends it. -/
theorem shift_method {f : Finished} {name : String} {params : List Param} {b b' : Body}
    {l : Lexeme} (h : b.shift l.token = some b') :
    (method f name params b).shift l = some (method f name params b') := by
  have hopen : l.token ≠ .phrase .methodClose := by
    intro hclose
    rw [hclose, b.shift_outer (by decide)] at h
    cases h
  rw [shift, shiftMethod, h]
  · rfl
  · exact hopen

/-- The statements of a method. -/
theorem run_body {wrap : Body → Draft}
    (hwrap : ∀ {b b' : Body} {l : Lexeme}, b.shift l.token = some b' →
      (wrap b).shift l = some (wrap b'))
    {b b' : Body} {ls : List Lexeme} (h : b.run (ls.map Lexeme.token) = some b') :
    (wrap b).run ls = some (wrap b') := by
  induction ls generalizing b with
  | nil =>
    obtain rfl := Option.some.inj h
    rfl
  | cons l ls ih =>
    cases hshift : b.shift l.token with
    | none =>
      rw [Body.run, List.map_cons, List.foldlM_cons, hshift] at h
      cases h
    | some b₁ =>
      rw [List.map_cons, Body.run_cons hshift] at h
      rw [run_cons (hwrap hshift), ih h]

/-- The entry method, up to its end. -/
theorem run_main {ts : List Token} {body : List Statement} (h : Star Grammar.Statement ts body)
    {ls : List Lexeme} (hls : ls.map Lexeme.token = ts ++ [.phrase .mainClose]) :
    (main .empty).run ls = some (closed { main := body, methods := [] }) := by
  obtain ⟨ls, last, rfl, hbody, hlast⟩ := List.map_eq_append_iff.1 hls
  obtain ⟨l, rfl, hl⟩ := List.map_eq_singleton_iff.1 hlast
  obtain ⟨b, hrun, hb⟩ := Body.run_statements h (Body.rests_ready [] [])
  have hclose : (main b).shift l = some (closed { main := body, methods := [] }) := by
    rw [shift, hl, shiftMain, hb.close?]
    simp
  rw [run_append (run_body shift_main (hbody ▸ hrun)), run_cons hclose]
  rfl

section

variable {f : Finished} {name : String} {params : List Param}

/-- A named method, up to its end. -/
theorem run_method {ts : List Token} {body : List Statement} (h : Star Grammar.Statement ts body)
    {ls : List Lexeme} (hls : ls.map Lexeme.token = ts ++ [.phrase .methodClose]) :
    (method f name params .empty).run ls = some (closed
      { f with methods := { name, params := params.reverse, body } :: f.methods }) := by
  obtain ⟨ls, last, rfl, hbody, hlast⟩ := List.map_eq_append_iff.1 hls
  obtain ⟨l, rfl, hl⟩ := List.map_eq_singleton_iff.1 hlast
  obtain ⟨b, hrun, hb⟩ := Body.run_statements h (Body.rests_ready [] [])
  have hclose : (method f name params b).shift l = some (closed
      { f with methods := { name, params := params.reverse, body } :: f.methods }) := by
    rw [shift, hl, shiftMethod, hb.close?]
    simp
  rw [run_append (run_body shift_method (hbody ▸ hrun)), run_cons hclose]
  rfl

/-! ### Headers of methods -/

/-- The header of a method ends where its body begins. -/
theorem shift_header {l : Lexeme} (hmore : l.token ≠ .phrase .parameter)
    (hend : l.token ≠ .phrase .parametersEnd) :
    (header f name params).shift l = (method f name params .empty).shift l := by
  simp only [shift]

/-- No body begins as a header goes on. -/
theorem run_header {ts : List Token} {body : List Statement} (h : Star Grammar.Statement ts body)
    {ls : List Lexeme} (hls : ls.map Lexeme.token = ts ++ [.phrase .methodClose]) :
    (header f name params).run ls = some (closed
      { f with methods := { name, params := params.reverse, body } :: f.methods }) := by
  rw [← run_method h hls]
  obtain ⟨p, us, hfirst, hp⟩ : ∃ p us, ts ++ [.phrase .methodClose] = .phrase p :: us ∧
      p ≠ .parameter ∧ p ≠ .parametersEnd := by
    cases h with
    | nil => exact ⟨_, _, rfl, by decide⟩
    | cons head tail =>
      obtain ⟨p, us, rfl, hp⟩ := head.exists_opened
      refine ⟨p, _, rfl, ?_⟩
      constructor <;> rintro rfl <;> cases hp
  rw [hfirst] at hls
  obtain ⟨l, ls, rfl, hl, -⟩ := List.map_eq_cons_iff.1 hls
  rw [run, run, List.foldlM_cons, List.foldlM_cons, shift_header (by simp [hl, hp])
    (by simp [hl, hp])]

/-- The names in a header, each with its own place. -/
def paramsOf (ls : List Lexeme) : List Param :=
  ls.filterMap fun l =>
    (name? l.token).map fun x => { name := x, start := l.span.start, stop := l.span.stop }

/-- The names of a header are found part by part. -/
theorem paramsOf_append (ls ks : List Lexeme) : paramsOf (ls ++ ks) = paramsOf ls ++ paramsOf ks :=
  List.filterMap_append

/-- Without their places they are the variables among the tokens. -/
theorem map_name_paramsOf (ls : List Lexeme) :
    (paramsOf ls).map Param.name = (ls.map Lexeme.token).filterMap name? := by
  rw [paramsOf, List.map_filterMap, List.filterMap_map]
  refine congrArg (ls.filterMap ·) (funext fun l => ?_)
  simp [Function.comp_def]

/-- The parameters of a method. -/
theorem run_params {ts : List Token} {names : List String} (h : Star Grammar.Param ts names)
    (params : List Param) {ls : List Lexeme} (hls : ls.map Lexeme.token = ts) :
    (header f name params).run ls = some (header f name ((paramsOf ls).reverse ++ params)) := by
  induction h generalizing ls params with
  | nil =>
    obtain rfl := List.map_eq_nil_iff.1 hls
    rfl
  | @cons _ _ x _ head _ ih =>
    obtain ⟨⟩ := head
    obtain ⟨l, ls, rfl, hl, hls⟩ := List.map_eq_cons_iff.1 hls
    obtain ⟨l', ls, rfl, hl', hls⟩ := List.map_eq_cons_iff.1 hls
    have hname : (param f name params).shift l' =
        some (header f name
          ({ name := x, start := l'.span.start, stop := l'.span.stop } :: params)) := by
      rw [shift, hl']
      rfl
    have hphrase : (header f name params).shift l = some (param f name params) := by
      simp only [shift, hl]
    rw [run_cons hphrase, run_cons hname, ih _ hls]
    simp [paramsOf, hl, hl', name?]

end

/-! ### Programs -/

/-- A method with its header, after a method; the places of its parameters are
those of the names in the header. -/
theorem run_definition {name : String} {ts us : List Token} {names : List String}
    {body : List Statement} (hparams : Grammar.Params ts names)
    (hbody : Star Grammar.Statement us body) (f : Finished) {l l' : Lexeme}
    (hl : l.token = .phrase .methodOpen) (hl' : l'.token = .var name) {ls ks : List Lexeme}
    (hls : ls.map Lexeme.token = ts) (hks : ks.map Lexeme.token = us ++ [.phrase .methodClose]) :
    (closed f).run (l :: l' :: (ls ++ ks)) = some (closed
      { f with methods := { name, params := paramsOf ls, body } :: f.methods }) := by
  have hopen : (closed f).shift l = some (naming f) := by
    rw [shift, hl, if_pos rfl]
  have hname : (naming f).shift l' = some (header f name []) := by
    rw [shift, hl']
    rfl
  rw [run_cons hopen, run_cons hname]
  -- the header may have a phrase at its end
  obtain ⟨vs, hvs, rfl | rfl⟩ := Grammar.params_iff.1 hparams
  · rw [run_append (run_params hvs [] hls), run_header hbody hks]
    simp
  · obtain ⟨ls, last, rfl, hnames, hlast⟩ := List.map_eq_append_iff.1 hls
    obtain ⟨l₁, rfl, hl₁⟩ := List.map_eq_singleton_iff.1 hlast
    have hend {ps : List Param} : (header f name ps).shift l₁ = some (method f name ps .empty) := by
      simp only [shift, hl₁]
    have hnone : paramsOf [l₁] = [] := by simp [paramsOf, hl₁, name?]
    rw [List.append_assoc, run_append (run_params hvs [] hnames), List.singleton_append,
      run_cons hend, run_method hbody hks, paramsOf_append, hnone]
    simp

/-- A method is read behind any complete methods. -/
theorem run_methodDef {ts : List Token} {m : Method} (h : Grammar.MethodDef ts m) (f : Finished)
    {ls : List Lexeme} (hls : ls.map Lexeme.token = ts) :
    ∃ d : Definition, (closed f).run ls = some (closed { f with methods := d :: f.methods }) ∧
      d.toMethod = m := by
  obtain @⟨name, ts, names, us, body, hparams, hbody⟩ := h
  obtain ⟨l, ls, rfl, hl, hls⟩ := List.map_eq_cons_iff.1 hls
  obtain ⟨l', ls, rfl, hl', hls⟩ := List.map_eq_cons_iff.1 hls
  rw [List.append_assoc] at hls
  obtain ⟨ls, ks, rfl, rfl, hks⟩ := List.map_eq_append_iff.1 hls
  refine ⟨_, run_definition hparams hbody f hl hl' rfl hks, ?_⟩
  rw [Definition.toMethod, map_name_paramsOf, hparams.filterMap_name?]

/-- Methods are read one after the other. -/
theorem run_methodDefs {ts : List Token} {ms : List Method} (h : Star Grammar.MethodDef ts ms)
    (f : Finished) {ls : List Lexeme} (hls : ls.map Lexeme.token = ts) :
    ∃ ds : List Definition,
      (closed f).run ls = some (closed { f with methods := ds ++ f.methods }) ∧
        ds.map Definition.toMethod = ms.reverse := by
  induction h generalizing f ls with
  | nil =>
    obtain rfl := List.map_eq_nil_iff.1 hls
    exact ⟨[], rfl, rfl⟩
  | cons head _ ih =>
    obtain ⟨ls, ks, rfl, hls, hks⟩ := List.map_eq_append_iff.1 hls
    obtain ⟨d, hrun, rfl⟩ := run_methodDef head f hls
    obtain ⟨ds, hruns, hds⟩ := ih { f with methods := d :: f.methods } hks
    refine ⟨ds ++ [d], ?_, ?_⟩
    · rw [run_append hrun, hruns]
      simp
    · simp [hds]

/-- **A program is read.**  The places of the tokens do not matter. -/
theorem run_program {ts : List Token} {p : Program} (h : Grammar.Program ts p) {ls : List Lexeme}
    (hls : ls.map Lexeme.token = ts) :
    ∃ f, start.run ls = some (closed f) ∧ f.toProgram = p := by
  obtain ⟨⟨hbody⟩, hmethods⟩ := h
  obtain ⟨ls, ks, rfl, hls, hks⟩ := List.map_eq_append_iff.1 hls
  obtain ⟨l, ls, rfl, hl, hls⟩ := List.map_eq_cons_iff.1 hls
  have hopen : start.shift l = some (main .empty) := by
    rw [shift, hl, if_pos rfl]
  obtain ⟨ds, hrun, hds⟩ := run_methodDefs hmethods _ hks
  refine ⟨_, by rw [List.cons_append, run_cons hopen, run_append (run_main hbody hls), hrun], ?_⟩
  simp [Finished.toProgram, hds]

end Draft
end Parser
end Showtime
