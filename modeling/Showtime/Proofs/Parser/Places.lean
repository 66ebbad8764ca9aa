/-
# Places and the parser

The parser keeps where tokens start and stop only to report it, and finds line and
column by a second look at the source.  Two lists of tokens that differ in their
places alone are read alike, step by step (`Draft.Alike.shift`) and to the end
(`Draft.Alike.readAll`): they are the same program, or they have the same error at
places that belong together.

For the tokens of a source the second look finds the place that the lexer has kept
(`Lexer.place_of_mem_stream`, by `Reached.span_of_mem_scans`).  A list that is read
beside itself then shows where the places of errors come from: each is the place of
a token, except that the end of the input is reported behind the last token
(`readAll_end`).  This settles all places that are reported (`positions_agree`).
-/

import Mathlib.Data.List.Forall2
import Showtime.Proofs.Parser.Stops
import Showtime.Proofs.Token.Step

namespace Showtime

variable {R : Span → Span → Prop} {source source' : String}

/-- The same token, at places that belong together. -/
structure Lexeme.Alike (R : Span → Span → Prop) (l k : Lexeme) : Prop where
  token : l.token = k.token
  span : R l.span k.span

/-- The same fault, at places that belong together. -/
structure LexError.Alike (R : Span → Span → Prop) (e e' : LexError) : Prop where
  fault : e.fault = e'.fault
  text : e.text = e'.text
  span : R e.span e'.span

/-- The same tokens and the same fault, at places that belong together: by `R`
for tokens, by `F` for the fault. -/
structure TokenStream.Alike (R F : Span → Span → Prop) (s t : TokenStream) : Prop where
  lexemes : List.Forall₂ (Lexeme.Alike R) s.lexemes t.lexemes
  fault : Option.Rel (LexError.Alike F) s.fault t.fault

/-- The same error, at places that belong together: by `R` for a place of a
token, by `F` for a fault of the lexer, by `Z` for the end of the input. -/
inductive ParseError.Alike (R F Z : Span → Span → Prop) : ParseError → ParseError → Prop
  | lex {e e'} (h : e.Alike F e') : Alike R F Z (.lex e) (.lex e')
  | token (t : Token) (expected : List Terminal) {s s'} (h : R s s') :
    Alike R F Z (.unexpected (some t) expected s) (.unexpected (some t) expected s')
  | ending (expected : List Terminal) {s s'} (h : Z s s') :
    Alike R F Z (.unexpected none expected s) (.unexpected none expected s')
  | repeated (name : String) {s s'} (h : R s s') :
    Alike R F Z (.repeatedParameter name s) (.repeatedParameter name s')

/-- The same program, or the same error at places that belong together. -/
inductive ReadAlike (R F Z : Span → Span → Prop) :
    Except ParseError Program → Except ParseError Program → Prop
  | program (p : Program) : ReadAlike R F Z (.ok p) (.ok p)
  | error {e e'} (h : e.Alike R F Z e') : ReadAlike R F Z (.error e) (.error e')

namespace Parser

/-- The same parameter, at places of two sources that belong together. -/
structure Param.Alike (R : Span → Span → Prop) (source source' : String) (p q : Param) : Prop where
  name : p.name = q.name
  place : R (p.place source) (q.place source')

/-- The same method, with places of parameters that belong together. -/
structure Definition.Alike (R : Span → Span → Prop) (source source' : String)
    (d e : Definition) : Prop where
  name : d.name = e.name
  params : List.Forall₂ (Param.Alike R source source') d.params e.params
  body : d.body = e.body

/-- The same complete methods, with places of parameters that belong together. -/
structure Finished.Alike (R : Span → Span → Prop) (source source' : String)
    (f g : Finished) : Prop where
  main : f.main = g.main
  methods : List.Forall₂ (Definition.Alike R source source') f.methods g.methods

/-- The same draft, with places of parameters that belong together. -/
inductive Draft.Alike (R : Span → Span → Prop) (source source' : String) : Draft → Draft → Prop
  | start : Alike R source source' .start .start
  | main (body : Body) : Alike R source source' (.main body) (.main body)
  | closed {f g} (h : f.Alike R source source' g) : Alike R source source' (.closed f) (.closed g)
  | naming {f g} (h : f.Alike R source source' g) : Alike R source source' (.naming f) (.naming g)
  | header {f g} (h : f.Alike R source source' g) (name : String) {ps qs}
    (hparams : List.Forall₂ (Param.Alike R source source') ps qs) :
    Alike R source source' (.header f name ps) (.header g name qs)
  | param {f g} (h : f.Alike R source source' g) (name : String) {ps qs}
    (hparams : List.Forall₂ (Param.Alike R source source') ps qs) :
    Alike R source source' (.param f name ps) (.param g name qs)
  | method {f g} (h : f.Alike R source source' g) (name : String) {ps qs}
    (hparams : List.Forall₂ (Param.Alike R source source') ps qs) (body : Body) :
    Alike R source source' (.method f name ps body) (.method g name qs body)

/-! ### Programs without places -/

/-- A complete method has no places left in it. -/
theorem Definition.Alike.toMethod_eq {d e : Definition} (h : d.Alike R source source' e) :
    d.toMethod = e.toMethod := by
  have hparams : d.params.map Param.name = e.params.map Param.name :=
    List.forall₂_eq_eq_eq ▸ List.rel_map (fun _ _ hpq => Param.Alike.name hpq) h.params
  rw [Definition.toMethod, Definition.toMethod, h.name, hparams, h.body]

/-- A program has no places left in it. -/
theorem Finished.Alike.toProgram_eq {f g : Finished} (h : f.Alike R source source' g) :
    f.toProgram = g.toProgram := by
  have hmethods : f.methods.map Definition.toMethod = g.methods.map Definition.toMethod :=
    List.forall₂_eq_eq_eq ▸ List.rel_map (fun _ _ hde => Definition.Alike.toMethod_eq hde) h.methods
  rw [Finished.toProgram, Finished.toProgram, h.main, hmethods]

namespace Draft

variable {d e : Draft} {l k : Lexeme}

/-- In parameters that are alike the same one comes again. -/
theorem firstRepeat?_alike {seen : List String} {ps qs : List Param}
    (h : List.Forall₂ (Param.Alike R source source') ps qs) :
    Option.Rel (Param.Alike R source source') (firstRepeat? seen ps) (firstRepeat? seen qs) := by
  induction h generalizing seen with
  | nil => exact .none
  | @cons p q ps qs hpq _ ih =>
    rw [firstRepeat?, firstRepeat?, ← hpq.name]
    split
    · exact .some hpq
    · exact ih

namespace Alike

/-- Drafts that are alike can end with the same program. -/
theorem finish?_eq (h : d.Alike R source source' e) : d.finish? = e.finish? := by
  cases h with
  | closed hf => rw [finish?, finish?, hf.toProgram_eq]
  | _ => rfl

/-- Drafts that are alike repeat the same parameter. -/
theorem repeated? (h : d.Alike R source source' e) :
    Option.Rel (Param.Alike R source source') d.repeated? e.repeated? := by
  cases h with
  | @closed f g hf =>
    obtain ⟨main, methods⟩ := f
    obtain ⟨main', methods'⟩ := g
    have hmethods : List.Forall₂ (Definition.Alike R source source') methods methods' := hf.methods
    cases hmethods with
    | nil => exact .none
    | cons hm _ => exact firstRepeat?_alike hm.params
  | _ => exact .none

/-- Drafts that are alike are so with their last statement completed. -/
theorem settle (h : d.Alike R source source' e) : d.settle.Alike R source source' e.settle := by
  cases h with
  | main body => exact .main _
  | method hf name hparams body => exact .method hf name hparams _
  | start => exact .start
  | closed hf => exact .closed hf
  | naming hf => exact .naming hf
  | header hf name hparams => exact .header hf name hparams
  | param hf name hparams => exact .param hf name hparams

/-! ### One token -/

/-- What is made from one and the same reading is alike on both sides. -/
theorem map {α : Type} {f g : α → Draft} (h : ∀ a, (f a).Alike R source source' (g a))
    (o : Option α) : Option.Rel (Draft.Alike R source source') (o.map f) (o.map g) := by
  cases o with
  | none => exact .none
  | some a => exact .some (h a)

/-- Inside a method a token is taken alike. -/
theorem shiftMethod {f g : Finished} (h : f.Alike R source source' g) (name : String)
    {ps qs : List Param} (hparams : List.Forall₂ (Param.Alike R source source') ps qs)
    (body : Body) (t : Token) :
    Option.Rel (Draft.Alike R source source') (shiftMethod f name ps body t)
      (shiftMethod g name qs body t) := by
  have hreverse : List.Forall₂ (Param.Alike R source source') ps.reverse qs.reverse :=
    List.forall₂_reverse_iff.2 hparams
  have hclosed (ss : List Statement) : Finished.Alike R source source'
      { f with methods := { name, params := ps.reverse, body := ss } :: f.methods }
      { g with methods := { name, params := qs.reverse, body := ss } :: g.methods } :=
    { main := h.main
      methods := .cons { name := rfl, params := hreverse, body := rfl } h.methods }
  unfold Draft.shiftMethod
  split
  · exact map (fun ss => .closed (hclosed ss)) _
  · exact map (fun b => .method h name hparams b) _

/-- **A token is taken alike.** -/
theorem shift (h : d.Alike R source source' e) (htoken : l.token = k.token)
    (hplace : R (l.place source) (k.place source')) :
    Option.Rel (Draft.Alike R source source') (d.shift l) (e.shift k) := by
  obtain ⟨token, span⟩ := l
  obtain ⟨token', span'⟩ := k
  obtain rfl : token = token' := htoken
  cases h with
  | start =>
    unfold Draft.shift
    simp only
    split
    · exact .some (.main _)
    · exact .none
  | main body =>
    simp only [Draft.shift, shiftMain]
    split
    · exact map (fun main => .closed { main := rfl, methods := .nil }) _
    · exact map (fun b => .main b) _
  | closed hf =>
    simp only [Draft.shift]
    split
    · exact .some (.naming hf)
    · exact .none
  | naming hf => exact map (fun name => .header hf name .nil) _
  | header hf name hparams =>
    simp only [Draft.shift]
    split
    · exact .some (.param hf name hparams)
    · exact .some (.method hf name hparams _)
    · exact shiftMethod hf name hparams _ _
  | param hf name hparams =>
    have hparam (x : String) : Param.Alike R source source'
        { name := x, start := span.start, stop := span.stop }
        { name := x, start := span'.start, stop := span'.stop } :=
      { name := rfl, place := hplace }
    exact map (fun x => .header hf name (.cons (hparam x) hparams)) _
  | method hf name hparams body => exact shiftMethod hf name hparams body token

/-! ### What can come next -/

/-- Places can be forgotten. -/
theorem forget (h : d.Alike R source source' e) : d.Alike (fun _ _ => True) source source' e := by
  have hparams {ps qs : List Param} (hps : List.Forall₂ (Param.Alike R source source') ps qs) :
      List.Forall₂ (Param.Alike (fun _ _ => True) source source') ps qs :=
    hps.imp fun _ _ hpq => { name := hpq.name, place := trivial }
  have hfinished {f g : Finished} (hf : f.Alike R source source' g) :
      f.Alike (fun _ _ => True) source source' g :=
    { main := hf.main
      methods := hf.methods.imp fun _ _ hde =>
        { name := hde.name, params := hparams hde.params, body := hde.body } }
  cases h with
  | start => exact .start
  | main body => exact .main body
  | closed hf => exact .closed (hfinished hf)
  | naming hf => exact .naming (hfinished hf)
  | header hf name hps => exact .header (hfinished hf) name (hparams hps)
  | param hf name hps => exact .param (hfinished hf) name (hparams hps)
  | method hf name hps body => exact .method (hfinished hf) name (hparams hps) body

/-- Whether a kind of token can come does not depend on places. -/
theorem accepts_eq (h : d.Alike R source source' e) (t : Terminal) : d.accepts t = e.accepts t := by
  let l : Lexeme := { token := t.sample, span := default }
  have hshift := h.forget.shift (l := l) (k := l) rfl trivial
  change (d.shift l).isSome = (e.shift l).isSome
  generalize d.shift l = next, e.shift l = next' at hshift
  cases hshift <;> rfl

/-- Drafts that are alike can go on with the same kinds of tokens. -/
theorem nextKinds_eq (h : d.Alike R source source' e) : d.nextKinds = e.nextKinds :=
  List.filter_congr fun t _ => h.accepts_eq t

/-- Drafts that are alike offer the same kinds in place of a token. -/
theorem expectedFor_eq (h : d.Alike R source source' e) (t : Token) :
    d.expectedFor t = e.expectedFor t := by
  cases t with
  | phrase p =>
    simp only [expectedFor]
    split
    · exact h.settle.nextKinds_eq
    · exact h.nextKinds_eq
  | _ => exact h.nextKinds_eq

/-! ### All tokens -/

variable {F Z : Span → Span → Prop} {last last' : Nat} {fault fault' : Option LexError}
  {ls ks : List Lexeme}

/-- **Tokens are read alike**, if they have the places that are found in the sources. -/
theorem readAll (h : d.Alike R source source' e)
    (hfault : Option.Rel (LexError.Alike F) fault fault')
    (hls : List.Forall₂ (Lexeme.Alike R) ls ks) (hplaces : ∀ l ∈ ls, l.place source = l.span)
    (hplaces' : ∀ k ∈ ks, k.place source' = k.span)
    (hlast : Z (Span.locate source last last) (Span.locate source' last' last'))
    (hstop : ∀ l ∈ ls, ∀ k ∈ ks, R l.span k.span →
      Z (Span.locate source l.span.stop l.span.stop)
        (Span.locate source' k.span.stop k.span.stop)) :
    ReadAlike R F Z (d.readAll source fault last ls) (e.readAll source' fault' last' ks) := by
  induction hls generalizing d e last last' with
  | nil =>
    have hrepeated := h.repeated?
    unfold Draft.readAll
    rw [h.finish?_eq, h.nextKinds_eq]
    generalize d.repeated? = repeated, e.repeated? = repeated' at hrepeated
    cases hfault with
    | some herror => exact .error (.lex herror)
    | none =>
      cases e.finish? with
      | none => exact .error (.ending _ hlast)
      | some program =>
        cases hrepeated with
        | none => exact .program program
        | @some p q hpq =>
          simp only [hpq.name]
          exact .error (.repeated _ hpq.place)
  | @cons l k ls ks hl _ ih =>
    -- the places that are found in the two sources are those of the tokens
    obtain ⟨hplace, hplaces⟩ := List.forall_mem_cons.1 hplaces
    obtain ⟨hplace', hplaces'⟩ := List.forall_mem_cons.1 hplaces'
    have hboth : R (l.place source) (k.place source') := by
      rw [hplace, hplace']
      exact hl.span
    have hshift := h.shift hl.token hboth
    have hrepeated := h.repeated?
    unfold Draft.readAll
    rw [h.expectedFor_eq, hl.token]
    generalize d.shift l = next, e.shift k = next' at hshift
    generalize d.repeated? = repeated, e.repeated? = repeated' at hrepeated
    cases hshift with
    | none => exact .error (.token _ _ hboth)
    | some hnext =>
      cases hrepeated with
      | none =>
        have hlast' := hstop l List.mem_cons_self k List.mem_cons_self hl.span
        refine ih hnext hplaces hplaces' hlast' fun l' hl' k' hk' => ?_
        exact hstop l' (List.mem_cons_of_mem _ hl') k' (List.mem_cons_of_mem _ hk')
      | @some p q hpq =>
        simp only [hpq.name]
        exact .error (.repeated _ hpq.place)

end Alike

/-! ### The end of the input -/

/-- Where the last token ends; `last` if there is none. -/
def stopAfter (last : Nat) (ls : List Lexeme) : Nat :=
  (ls.getLast?.map fun l => l.span.stop).getD last

/-- Behind one more token it is the later tokens that count. -/
theorem stopAfter_cons (last : Nat) (l : Lexeme) (ls : List Lexeme) :
    stopAfter last (l :: ls) = stopAfter l.span.stop ls := by
  unfold stopAfter
  rw [List.getLast?_cons]
  cases ls.getLast? <;> rfl

/-- The end of the input is reported behind the last token, and only where the
lexer had no fault. -/
theorem readAll_end {fault : Option LexError} {last : Nat} {ls : List Lexeme}
    {expected : List Terminal} {span : Span}
    (h : d.readAll source fault last ls = .error (.unexpected none expected span)) :
    fault = none ∧ span = Span.locate source (stopAfter last ls) (stopAfter last ls) := by
  induction ls generalizing d last with
  | nil =>
    unfold readAll at h
    split at h <;> cases h
    exact ⟨rfl, rfl⟩
  | cons l ls ih =>
    rw [readAll] at h
    split at h
    · cases h
    · cases h
    · rw [stopAfter_cons]
      exact ih h

end Draft
end Parser

open Showtime.Parser (Draft)

/-! ### All places that are reported -/

/-- Every token of the stream comes out of some call. -/
theorem Lexer.mem_scans_of_mem_stream {lx : Lexer} {l : Lexeme} (h : l ∈ lx.stream.lexemes) :
    ∃ n, .token l ∈ lx.scans n := by
  fun_induction Lexer.stream lx with
  | case1 lx k next hscan _ ih =>
    rcases List.mem_cons.1 h with rfl | h
    · refine ⟨1, ?_⟩
      rw [scans, hscan]
      exact List.mem_cons_self
    · obtain ⟨n, hn⟩ := ih h
      refine ⟨n + 1, ?_⟩
      rw [scans, hscan]
      exact List.mem_cons_of_mem _ hn
  | case2 => cases h
  | case3 => cases h

/-- A second look at the source finds the place that the lexer has kept of a token. -/
theorem Lexer.place_of_mem_stream {l : Lexeme} (h : l ∈ (ofSource source).stream.lexemes) :
    l.place source = l.span := by
  obtain ⟨n, hn⟩ := mem_scans_of_mem_stream h
  exact ((reached_ofSource source).span_of_mem_scans hn).symm

/-- The place of an error is the place of a token, faults of the lexer and the
end of the input apart. -/
theorem Program.read_error_alike {e : ParseError}
    (h : Program.read source = .error e) :
    e.Alike (fun s _ => ∃ l ∈ (Lexer.ofSource source).stream.lexemes, l.span = s)
      (fun _ _ => True) (fun _ _ => True) e := by
  have hself : ReadAlike (fun s _ => ∃ l ∈ (Lexer.ofSource source).stream.lexemes, l.span = s)
      (fun _ _ => True) (fun _ _ => True) (Program.read source) (Program.read source) := by
    refine Draft.Alike.start.readAll ?_ ?_ (fun _ => Lexer.place_of_mem_stream)
      (fun _ => Lexer.place_of_mem_stream) trivial fun _ _ _ _ _ => trivial
    · cases (Lexer.ofSource source).stream.fault with
      | none => exact .none
      | some _ => exact .some { fault := rfl, text := rfl, span := trivial }
    · exact List.forall₂_same.2 fun l hl => { token := rfl, span := ⟨l, hl, rfl⟩ }
  rw [h] at hself
  cases hself with
  | error herror => exact herror

/-- No token is named in words that start as those for the end of the input. -/
theorem Token.not_starts_endText (t : Token) (cs : List Char) :
    ¬ endText.toList <+: t.render.toList ++ cs := by
  have hhead : ∃ c ds, t.render.toList = c :: ds ∧ c ≠ 'e' := by
    cases t with
    | phrase p => exact ⟨_, _, String.toList_ofList, by decide⟩
    | symbol c => exact ⟨_, _, String.toList_ofList, by decide⟩
    | int n => exact ⟨'i', _, by simp only [render, String.toList_append]; rfl, by decide⟩
    | str s => exact ⟨'s', _, by simp only [render, String.toList_append]; rfl, by decide⟩
    | var name => exact ⟨'v', _, by simp only [render, String.toList_append]; rfl, by decide⟩
    | truth b => exact ⟨'@', _, by simp only [render, String.toList_append]; rfl, by decide⟩
  obtain ⟨c, ds, hrender, hc⟩ := hhead
  rw [hrender]
  intro h
  exact hc (List.cons_prefix_cons.1 h).1.symm

/-- What a parser error says shows whether it is about the end of the input. -/
theorem ParseError.starts_endText_iff {e : ParseError} {message : String} {span : Span}
    (h : e.toCompileError = .parser message span) :
    ("unexpected " ++ endText).toList <+: message.toList ↔
      ∃ expected, e = .unexpected none expected span := by
  cases e with
  | lex e => cases h
  | unexpected found expected place =>
    obtain ⟨rfl, rfl⟩ := CompileError.parser.inj h
    rw [String.toList_append, String.toList_append, String.toList_append, List.append_assoc,
      List.prefix_append_right_inj]
    cases found with
    | none => exact iff_of_true (List.prefix_append _ _) ⟨expected, rfl⟩
    | some t =>
      refine iff_of_false (t.not_starts_endText _) ?_
      rintro ⟨_, hnone⟩
      cases hnone
  | repeatedParameter name place =>
    obtain ⟨rfl, rfl⟩ := CompileError.parser.inj h
    refine iff_of_false ?_ ?_
    · rw [String.toList_append, String.toList_append]
      intro hwords
      cases (List.cons_prefix_cons.1 hwords).1
    · rintro ⟨_, hnone⟩
      cases hnone

/-- **All places agree.**  Whatever the calls of the lexer give, and however
many of them go on behind a fault or the end, the place that it keeps is the one
that a second look at the source finds.  A parser error has the place of a token
that some call gives; only the end of the input has its place behind the last
token, or at the start if there is none. -/
theorem positions_agree (source : String) :
    (∀ n, ∀ f ∈ (Lexer.ofSource source).scans n,
      f.span = Span.locate source f.span.start f.span.stop) ∧
    ∀ message span, Program.parse source = .error (.parser message span) →
      (("unexpected " ++ endText).toList <+: message.toList →
        ∃ ls, tokenize source = .ok ls ∧
          span = Span.locate source (Draft.stopAfter 0 ls) (Draft.stopAfter 0 ls)) ∧
      (¬ ("unexpected " ++ endText).toList <+: message.toList →
        ∃ n l, .token l ∈ (Lexer.ofSource source).scans n ∧ l.span = span) := by
  refine ⟨fun n f hf => (Lexer.reached_ofSource source).span_of_mem_scans hf, ?_⟩
  intro message span hparse
  obtain ⟨e, hread, he⟩ := Program.parse_eq_error hparse
  have hwords := ParseError.starts_endText_iff he.symm
  refine ⟨fun hend => ?_, fun hend => ?_⟩
  · obtain ⟨expected, rfl⟩ := hwords.1 hend
    obtain ⟨hfault, hspan⟩ := Draft.readAll_end hread
    exact ⟨_, tokenize_eq_ok_iff.2 ⟨hfault, rfl⟩, hspan⟩
  · have hplace : ∃ l ∈ (Lexer.ofSource source).stream.lexemes, l.span = span := by
      cases Program.read_error_alike hread with
      | lex _ => cases he
      | ending expected _ =>
        obtain ⟨-, rfl⟩ := CompileError.parser.inj he
        exact absurd (hwords.2 ⟨expected, rfl⟩) hend
      | token t expected hplace =>
        obtain ⟨-, rfl⟩ := CompileError.parser.inj he
        exact hplace
      | repeated name hplace =>
        obtain ⟨-, rfl⟩ := CompileError.parser.inj he
        exact hplace
    obtain ⟨l, hl, hspan⟩ := hplace
    obtain ⟨n, hn⟩ := Lexer.mem_scans_of_mem_stream hl
    exact ⟨n, l, hn, hspan⟩

/-- The last statement lacks its variable; a string before it takes more bytes
than it has characters, and blanks and line ends come behind. -/
def unassigned : String :=
  "IT'S SHOWTIME\nTALK TO THE HAND \"n\u00e9\"\n\tGET YOUR ASS TO MARS \r\n\n"

/-- The end is reported right behind the phrase with its blank. -/
theorem unassigned_reported_at_end :
    Program.parse unassigned = .error (.parser "unexpected end of input, expected \"variable\""
      { start := 59, stop := 59, line := 3, column := 23 }) ∧
    ∃ ls, tokenize unassigned = .ok ls ∧ { start := 59, stop := 59, line := 3, column := 23 } =
      Span.locate unassigned (Draft.stopAfter 0 ls) (Draft.stopAfter 0 ls) := by
  have hparse : Program.parse unassigned = .error
      (.parser "unexpected end of input, expected \"variable\""
        { start := 59, stop := 59, line := 3, column := 23 }) := by
    decide +kernel
  exact ⟨hparse, ((positions_agree unassigned).2 _ _ hparse).1 (by decide)⟩

end Showtime
