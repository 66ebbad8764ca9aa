/-
# Which error is reported

The items of a source are its tokens and what stands behind them, a fault of the
lexer or the end of the input, numbered from zero.  Three things can be wrong at
an item:

| what is wrong | where |
| --- | --- |
| a fault of the lexer | at the fault (`faultIndex`) |
| a token, or the end, that cannot come | where the tokens cease to start a program (`strayIndex`) |
| a repeated parameter | right after the first method that has one (`repeatIndex`) |

All was in order at the items before the one where reading stops
(`Draft.Leads.le_of_strays`, `Draft.Leads.le_of_repeats`), so the error that is
reported is the first (`first_error_is_reported`).
-/

import Mathlib.Data.ENat.Lattice
import Showtime.Proofs.Parser.Places
import Showtime.Proofs.Parser.Viable

namespace Showtime

open Grammar (Star Derivable Viable)

/-! ### First numbers -/

/-- The first number with a property, `⊤` if there is none. -/
noncomputable def firstIndex (P : ℕ → Prop) : ℕ∞ :=
  ⨅ (j : ℕ) (_ : P j), (j : ℕ∞)

section

variable {P : ℕ → Prop} {k : ℕ}

/-- A number is at most the first one if it is at most all of them. -/
theorem le_firstIndex_iff : (k : ℕ∞) ≤ firstIndex P ↔ ∀ j, P j → k ≤ j := by
  simp only [firstIndex, le_iInf_iff, Nat.cast_le]

/-- A number is before the first one if it is before all of them. -/
theorem lt_firstIndex_iff : (k : ℕ∞) < firstIndex P ↔ ∀ j, P j → k < j := by
  rw [← ENat.add_one_le_iff (ENat.natCast_ne_top k)]
  exact le_firstIndex_iff

/-- The least number with the property is the first one. -/
theorem firstIndex_eq (hk : P k) (hleast : ∀ j, P j → k ≤ j) : firstIndex P = k :=
  le_antisymm (iInf₂_le k hk) (le_firstIndex_iff.2 hleast)

end

/-! ### What can be wrong at an item -/

namespace TokenStream

variable (s : TokenStream) (j : ℕ)

/-- The tokens without their places. -/
def tokens : List Token :=
  s.lexemes.map Lexeme.token

/-- The item is a fault of the lexer. -/
def Faults : Prop :=
  j = s.lexemes.length ∧ s.fault.isSome

/-- With the item the tokens are no start of a program, or no program if it is
the end of the input. -/
def Strays : Prop :=
  (j < s.lexemes.length ∧ ¬ Viable (s.tokens.take (j + 1))) ∨
    (j = s.lexemes.length ∧ s.fault = none ∧ ¬ Derivable s.tokens)

/-- The item comes right after a method that repeats a parameter. -/
def Repeats : Prop :=
  j ≤ s.lexemes.length ∧ ∃ before us m,
    s.tokens.take j = before ++ us ∧ Grammar.MethodDef us m ∧ ¬ m.params.Nodup

/-- The item at which the lexer has its fault. -/
noncomputable def faultIndex : ℕ∞ := firstIndex s.Faults

/-- The first item at which the tokens cease to start a program. -/
noncomputable def strayIndex : ℕ∞ := firstIndex s.Strays

/-- The first item that comes right after a method that repeats a parameter. -/
noncomputable def repeatIndex : ℕ∞ := firstIndex s.Repeats

end TokenStream

/-- The tokens end with a method in whose header a name comes again at this
place, and no name before it does so. -/
inductive EndsRepeating (name : String) (span : Span) : List Lexeme → Prop
  | mk {before : List Lexeme} {opening methodName : Lexeme} {header body : List Lexeme}
    {closing : Lexeme} {method : String} {names : List String} {ss : List Statement}
    {ks rest : List Lexeme} (hopening : opening.token = .phrase .methodOpen)
    (hmethod : methodName.token = .var method)
    (hparams : Grammar.Params (header.map Lexeme.token) names)
    (hbody : Star Grammar.Statement (body.map Lexeme.token) ss)
    (hclosing : closing.token = .phrase .methodClose)
    (hheader : header = ks ++ { token := .var name, span } :: rest)
    (hagain : .var name ∈ ks.map Lexeme.token)
    (hfirst : ((ks.map Lexeme.token).filterMap Parser.name?).Nodup) :
    EndsRepeating name span (before ++ opening :: methodName :: (header ++ (body ++ [closing])))

/-- A name that comes again is a repeated parameter of the method. -/
theorem EndsRepeating.exists_methodDef {name : String} {span : Span} {ls : List Lexeme}
    (h : EndsRepeating name span ls) :
    ∃ before us m, ls.map Lexeme.token = before ++ us ∧ Grammar.MethodDef us m ∧
      ¬ m.params.Nodup := by
  obtain @⟨before, opening, methodName, header, body, closing, method, names, ss, ks, rest,
    hopening, hmethod, hparams, hbody, hclosing, rfl, hagain, -⟩ := h
  refine ⟨before.map Lexeme.token, _, _, ?_, @Grammar.MethodDef.mk method _ _ _ _ hparams hbody, ?_⟩
  · simp only [List.map_append, List.map_cons, List.map_nil, hopening, hmethod, hclosing,
      List.append_assoc]
  · have hseen : name ∈ (ks.map Lexeme.token).filterMap Parser.name? :=
      List.mem_filterMap.2 ⟨_, hagain, rfl⟩
    have hnames := hparams.filterMap_name?
    rw [List.map_append, List.map_cons, List.filterMap_append] at hnames
    intro hnodup
    rw [← hnames, List.nodup_append] at hnodup
    exact hnodup.2.2 name hseen name List.mem_cons_self rfl

namespace Parser

namespace Draft

variable {d d' : Draft} {l : Lexeme} {ls ks : List Lexeme} {p : Param}

/-! ### The first repeated parameter -/

/-- What is found is the first parameter that repeats a name. -/
theorem firstRepeat?_eq_some {seen : List String} {params : List Param}
    (h : firstRepeat? seen params = some p) :
    ∃ before after, params = before ++ p :: after ∧
      (p.name ∈ seen ∨ p.name ∈ before.map Param.name) ∧ (before.map Param.name).Nodup ∧
      ∀ q ∈ before, q.name ∉ seen := by
  induction params generalizing seen with
  | nil => cases h
  | cons q rest ih =>
    rw [firstRepeat?] at h
    split at h
    · next hseen =>
      obtain rfl := Option.some.inj h
      exact ⟨[], rest, rfl, .inl hseen, .nil, fun _ hq => absurd hq List.not_mem_nil⟩
    · next hnew =>
      obtain ⟨before, after, rfl, hagain, hnodup, hapart⟩ := ih h
      refine ⟨q :: before, after, rfl, ?_, ?_, ?_⟩
      · simp only [List.mem_cons, List.map_cons] at hagain ⊢
        tauto
      · rw [List.map_cons, List.nodup_cons]
        refine ⟨fun hmem => ?_, hnodup⟩
        obtain ⟨r, hr, hrq⟩ := List.mem_map.1 hmem
        exact hapart r hr (hrq ▸ List.mem_cons_self)
      · rintro r (_ | ⟨_, hr⟩)
        · exact hnew
        · exact fun hmem => hapart r hr (List.mem_cons_of_mem _ hmem)

/-- A parameter stands in the header with its name and place. -/
theorem exists_of_paramsOf {before after : List Param} (h : paramsOf ls = before ++ p :: after) :
    ∃ ks span rest, ls = ks ++ { token := .var p.name, span } :: rest ∧ span.start = p.start ∧
      span.stop = p.stop ∧ paramsOf ks = before := by
  obtain ⟨ks, us, rfl, hks, hus⟩ := List.filterMap_eq_append_iff.1 h
  obtain ⟨vs, l, rest, rfl, hvs, hl, -⟩ := List.filterMap_eq_cons_iff.1 hus
  obtain ⟨name, hname, rfl⟩ := Option.map_eq_some_iff.1 hl
  obtain ⟨t, span⟩ := l
  obtain rfl : t = .var name := Grammar.name?_eq_some_iff.1 hname
  refine ⟨ks ++ vs, span, rest, by rw [List.append_assoc], rfl, rfl, ?_⟩
  have hnone : paramsOf vs = [] := List.filterMap_eq_nil_iff.2 hvs
  rw [paramsOf_append, hnone, List.append_nil]
  exact hks

/-- **A parameter that is found stands in the method that has just ended**, where the
tokens have the places that are found in the source. -/
theorem endsRepeating_of_repeated? {source : String} (hrun : start.run ls = some d)
    (h : d.repeated? = some p) (hplaces : ∀ l ∈ ls, l.place source = l.span) :
    EndsRepeating p.name (p.place source) ls := by
  have hreads : d.Reads (ls.map Lexeme.token) := Reads.start.run hrun
  obtain ⟨main, m, ms, rfl⟩ : ∃ main m ms, d = closed { main, methods := m :: ms } := by
    unfold repeated? at h
    split at h
    · exact ⟨_, _, _, rfl⟩
    · cases h
  -- the tokens of the last method, and the ones before it
  have hprogram := hreads.finish? rfl
  rw [Finished.toProgram, List.map_cons, List.reverse_cons] at hprogram
  obtain ⟨us, vs, hls, hbefore, hmethod⟩ := hprogram.exists_concat
  obtain ⟨before, ls, rfl, rfl, hvs⟩ := List.map_eq_append_iff.1 hls
  obtain ⟨f, hrunBefore, -⟩ := run_program hbefore rfl
  generalize m.toMethod = m' at hmethod
  obtain ⟨hparams, hbody⟩ := hmethod
  obtain ⟨opening, ls, rfl, hopening, hvs⟩ := List.map_eq_cons_iff.1 hvs
  obtain ⟨methodName, ls, rfl, hname, hvs⟩ := List.map_eq_cons_iff.1 hvs
  rw [List.append_assoc] at hvs
  obtain ⟨header, rest, rfl, rfl, hrest⟩ := List.map_eq_append_iff.1 hvs
  -- reading them gives the method, with the places of its parameters
  have hrunMethod := run_definition hparams hbody f hopening hname rfl hrest
  rw [run_append hrunBefore, hrunMethod] at hrun
  obtain ⟨⟩ := Option.some.inj hrun
  obtain ⟨body, last, rfl, rfl, hlast⟩ := List.map_eq_append_iff.1 hrest
  obtain ⟨closing, rfl, hclosing⟩ := List.map_eq_singleton_iff.1 hlast
  obtain ⟨firsts, others, hsplit, hagain, hnodup, -⟩ := firstRepeat?_eq_some h
  obtain ⟨ks, span, rest, hheader, hstart, hstop, rfl⟩ := exists_of_paramsOf hsplit
  have hspan : p.place source = span := by
    rw [Param.place, ← hstart, ← hstop]
    exact hplaces { token := .var p.name, span } (by simp [hheader])
  rw [map_name_paramsOf] at hagain hnodup
  have hmem : .var p.name ∈ ks.map Lexeme.token := by
    obtain ⟨t, ht, hname⟩ := List.mem_filterMap.1 (hagain.resolve_left List.not_mem_nil)
    rwa [Grammar.name?_eq_some_iff.1 hname] at ht
  rw [hspan]
  exact .mk hopening hname hparams hbody hclosing hheader hmem hnodup

/-! ### Before reading stops -/

/-- A method begins where another has ended. -/
theorem exists_closed_of_methodOpen (hl : l.token = .phrase .methodOpen)
    (h : d.shift l = some d') : ∃ f, d = closed f := by
  cases d with
  | closed f => exact ⟨f, rfl⟩
  | main body =>
    rw [shift, hl, shiftMain, body.shift_outer (by decide)] at h
    · cases h
    · simp
  | method f name params body =>
    rw [shift, hl, shiftMethod, body.shift_outer (by decide)] at h
    · cases h
    · simp
  | _ =>
    rw [shift, hl] at h
    cases h

/-- After a method that repeats a parameter, the draft has it. -/
theorem repeated?_ne_none {before us : List Token} {m : Method} (hrun : start.run ls = some d)
    (hls : ls.map Lexeme.token = before ++ us) (hm : Grammar.MethodDef us m)
    (hrepeats : ¬ m.params.Nodup) : d.repeated? ≠ none := by
  obtain ⟨ls, ks, rfl, -, hks⟩ := List.map_eq_append_iff.1 hls
  obtain ⟨d₁, -, hrun⟩ := run_append_eq_some_iff.1 hrun
  obtain ⟨f, rfl⟩ : ∃ f, d₁ = closed f := by
    obtain ⟨hparams, hbody⟩ := hm
    obtain ⟨l, ks, rfl, hl, -⟩ := List.map_eq_cons_iff.1 hks
    obtain ⟨d₂, hshift, -⟩ := run_cons_eq_some_iff.1 hrun
    exact exists_closed_of_methodOpen hl hshift
  obtain ⟨definition, hrun', rfl⟩ := run_methodDef hm f hks
  obtain rfl := Option.some.inj (hrun.symm.trans hrun')
  exact fun hnone => hrepeats ((repeated?_closed_eq_none_iff rfl).1 hnone)

/-- What leads on was found in order. -/
theorem Leads.repeated?_eq_none (h : d.Leads (ls ++ l :: ks) d') :
    ∃ d₁, d.run ls = some d₁ ∧ d₁.repeated? = none := by
  induction ls generalizing d with
  | nil =>
    obtain _ | ⟨-, hnone, -⟩ := h
    exact ⟨d, rfl, hnone⟩
  | cons k ls ih =>
    obtain _ | ⟨hshift, -, hrest⟩ := h
    obtain ⟨d₁, hrun, hnone⟩ := ih hrest
    exact ⟨d₁, by rw [run_cons hshift, hrun], hnone⟩

variable {s : TokenStream} {rest : List Lexeme} {j : ℕ}

/-- The tokens that were taken are in order. -/
theorem Leads.le_of_strays (h : start.Leads ks d) (hs : s.lexemes = ks ++ rest)
    (hj : s.Strays j) : ks.length ≤ j := by
  by_contra! hlt
  obtain ⟨-, hstray⟩ | ⟨rfl, -⟩ := hj
  · have hviable : Viable (ks.map Lexeme.token) := viable_iff_run.2 ⟨d, h.run⟩
    rw [← List.take_append_drop (j + 1) (ks.map Lexeme.token)] at hviable
    refine hstray ?_
    rw [TokenStream.tokens, hs, List.map_append, List.take_append_of_le_length (by simpa using hlt)]
    exact hviable.of_append
  · rw [hs, List.length_append] at hlt
    omega

/-- The methods that ended before were in order. -/
theorem Leads.le_of_repeats (h : start.Leads ks d) (hs : s.lexemes = ks ++ rest)
    (hj : s.Repeats j) : ks.length ≤ j := by
  by_contra! hlt
  obtain ⟨-, before, us, m, htake, hm, hrepeats⟩ := hj
  have hsplit : ks = ks.take j ++ ks.get ⟨j, hlt⟩ :: ks.drop (j + 1) := by simp
  rw [hsplit] at h
  obtain ⟨d₁, hrun, hnone⟩ := h.repeated?_eq_none
  have hls : (ks.take j).map Lexeme.token = before ++ us := by
    rw [← htake, TokenStream.tokens, hs, List.map_append,
      List.take_append_of_le_length (by simpa using hlt.le), List.map_take]
  exact repeated?_ne_none hrun hls hm hrepeats hnone

/-- A token goes astray where it cannot come next. -/
theorem strays_iff_shift (hrun : start.run ks = some d) (hs : s.lexemes = ks ++ l :: rest) :
    s.Strays ks.length ↔ d.shift l = none := by
  have hlength : s.lexemes.length = ks.length + (rest.length + 1) := by
    rw [hs, List.length_append, List.length_cons]
  have htake : s.tokens.take (ks.length + 1) = ks.map Lexeme.token ++ [l.token] := by
    rw [TokenStream.tokens, hs, List.append_cons, List.map_append, List.map_append]
    exact List.take_left' (by simp)
  rw [TokenStream.Strays, htake, viable_concat_iff hrun, Option.not_isSome_iff_eq_none]
  constructor
  · rintro (⟨-, hshift⟩ | ⟨hend, -⟩)
    · exact hshift
    · omega
  · exact fun hshift => .inl ⟨by omega, hshift⟩

/-- The end of the input goes astray where no program has ended. -/
theorem strays_iff_finish? (hrun : start.run ks = some d) (hs : s.lexemes = ks) :
    s.Strays ks.length ↔ s.fault = none ∧ d.finish? = none := by
  have hderivable : ¬ Derivable s.tokens ↔ d.finish? = none := by
    rw [TokenStream.tokens, hs, derivable_iff_finish? hrun, Option.not_isSome_iff_eq_none]
  rw [TokenStream.Strays, hderivable, hs]
  constructor
  · rintro (⟨hlt, -⟩ | ⟨-, hend⟩)
    · exact absurd hlt (Nat.lt_irrefl _)
    · exact hend
  · exact fun hend => .inr ⟨rfl, hend⟩

/-! ### Where reading stops -/

/-- A fault stands behind all tokens. -/
theorem lt_faultIndex (hs : s.lexemes = ks ++ rest) (h : s.fault = none ∨ 0 < rest.length) :
    (ks.length : ℕ∞) < s.faultIndex := by
  refine lt_firstIndex_iff.2 fun j ⟨hj, hfault⟩ => ?_
  obtain hnone | hrest := h
  · rw [hnone] at hfault
    cases hfault
  · rw [hj, hs, List.length_append]
    omega

/-- The first stray item is the one at which reading stops, if that is stray. -/
theorem Leads.strayIndex_eq (h : start.Leads ks d) (hs : s.lexemes = ks ++ rest)
    (hhere : s.Strays ks.length) : s.strayIndex = ks.length :=
  firstIndex_eq hhere fun _ hj => h.le_of_strays hs hj

/-- The first stray item comes later, if the one at which reading stops is in order. -/
theorem Leads.lt_strayIndex (h : start.Leads ks d) (hs : s.lexemes = ks ++ rest)
    (hhere : ¬ s.Strays ks.length) : (ks.length : ℕ∞) < s.strayIndex := by
  refine lt_firstIndex_iff.2 fun j hj => lt_of_le_of_ne (h.le_of_strays hs hj) ?_
  rintro rfl
  exact hhere hj

/-- No method that ended before has repeated a parameter. -/
theorem Leads.le_repeatIndex (h : start.Leads ks d) (hs : s.lexemes = ks ++ rest) :
    (ks.length : ℕ∞) ≤ s.repeatIndex :=
  le_firstIndex_iff.2 fun _ hj => h.le_of_repeats hs hj

/-- A parameter is found right after the first method that repeats one. -/
theorem Leads.repeatIndex_eq {source : String} (h : start.Leads ks d)
    (hs : s.lexemes = ks ++ rest) (hrepeated : d.repeated? = some p)
    (hplaces : ∀ l ∈ s.lexemes, l.place source = l.span) :
    s.repeatIndex = ks.length ∧
      EndsRepeating p.name (p.place source) (s.lexemes.take ks.length) := by
  have hends : EndsRepeating p.name (p.place source) ks :=
    endsRepeating_of_repeated? h.run hrepeated fun l hl => hplaces l (by simp [hs, hl])
  have htake : s.lexemes.take ks.length = ks := by rw [hs, List.take_left]
  have hlength : ks.length ≤ s.lexemes.length := by
    rw [hs, List.length_append]
    omega
  have hhere : s.Repeats ks.length := by
    refine ⟨hlength, ?_⟩
    rw [TokenStream.tokens, ← List.map_take, htake]
    exact hends.exists_methodDef
  rw [htake]
  exact ⟨firstIndex_eq hhere fun _ hj => h.le_of_repeats hs hj, hends⟩

end Draft
end Parser

open Showtime.Parser (Draft)

/-- **The first error is reported.**  When a source is refused, the error is the
one of the least item; at one and the same item a fault of the lexer goes before
a token that cannot come, and that before a repeated parameter.  A fault is the
one that the lexer gives; a token that cannot come, or the end of the input, is
named with its place; a repeated parameter is the first one in the method that
comes again, with its own place. -/
theorem first_error_is_reported {source : String} {err : CompileError}
    (h : Program.parse source = .error err) :
    ∃ e : ParseError, err = e.toCompileError ∧
      let s := (Lexer.ofSource source).stream
      match e with
      | .lex fault => s.faultIndex ≤ s.strayIndex ∧ s.faultIndex ≤ s.repeatIndex ∧
          tokenize source = .error fault ∧ s.faultIndex = s.lexemes.length
      | .unexpected found _ span => s.strayIndex < s.faultIndex ∧ s.strayIndex ≤ s.repeatIndex ∧
          ∃ k : ℕ, s.strayIndex = k ∧ found = s.tokens[k]? ∧
            ∀ l, s.lexemes[k]? = some l → span = l.span
      | .repeatedParameter name span =>
          s.repeatIndex < s.faultIndex ∧ s.repeatIndex < s.strayIndex ∧
            ∃ k : ℕ, s.repeatIndex = k ∧ EndsRepeating name span (s.lexemes.take k) := by
  obtain ⟨e, hread, rfl⟩ := Program.parse_eq_error h
  obtain ⟨ks, rest, d, last, hls, hleads, hstops⟩ := Program.read_eq_error hread
  refine ⟨e, rfl, ?_⟩
  have htokenize {fault : LexError} (hfault : (Lexer.ofSource source).stream.fault = some fault) :
      tokenize source = .error fault := by
    rw [tokenize, hfault]
  have hplaces : ∀ l ∈ (Lexer.ofSource source).stream.lexemes, l.place source = l.span :=
    fun _ => Lexer.place_of_mem_stream
  generalize (Lexer.ofSource source).stream = s at hls hstops htokenize hplaces
  have hrun := hleads.run
  have hrepeat := hleads.le_repeatIndex hls
  -- all items before this one are in order, so it is left to see what is wrong here
  cases hstops with
  | @fault fault hfault =>
    have hend : ks.length = s.lexemes.length := by rw [hls, List.append_nil]
    have hindex : s.faultIndex = ks.length :=
      firstIndex_eq ⟨hend, by rw [hfault]; rfl⟩ fun j hj => (hend.trans hj.1.symm).le
    have hstray : (ks.length : ℕ∞) ≤ s.strayIndex :=
      le_firstIndex_iff.2 fun j hj => hleads.le_of_strays hls hj
    simp only [hindex]
    exact ⟨hstray, hrepeat, htokenize hfault, congrArg Nat.cast hend⟩
  | unfinished hfault hfinish =>
    have hend : s.lexemes = ks := by rw [hls, List.append_nil]
    have hindex := hleads.strayIndex_eq hls ((Draft.strays_iff_finish? hrun hend).2 ⟨hfault, hfinish⟩)
    simp only [hindex]
    refine ⟨Draft.lt_faultIndex hls (.inl hfault), hrepeat, _, rfl, ?_, ?_⟩
    · simp [TokenStream.tokens, hend]
    · simp [hend]
  | @impossible l rest hshift =>
    have hindex := hleads.strayIndex_eq hls ((Draft.strays_iff_shift hrun hls).2 hshift)
    simp only [hindex]
    refine ⟨Draft.lt_faultIndex hls (.inr (Nat.succ_pos _)), hrepeat, _, rfl, ?_, ?_⟩
    · simp [TokenStream.tokens, hls]
    · simp [hls, hplaces l]
  | repeatedAtEnd hfault hfinish hrepeated =>
    have hend : s.lexemes = ks := by rw [hls, List.append_nil]
    have hordered : ¬ s.Strays ks.length := by
      rw [Draft.strays_iff_finish? hrun hend, hfinish]
      exact fun hnone => Option.some_ne_none _ hnone.2
    obtain ⟨hindex, hends⟩ := hleads.repeatIndex_eq hls hrepeated hplaces
    simp only [hindex]
    exact ⟨Draft.lt_faultIndex hls (.inl hfault), hleads.lt_strayIndex hls hordered, _, rfl, hends⟩
  | repeatedBefore hshift hrepeated =>
    have hordered : ¬ s.Strays ks.length := by
      rw [Draft.strays_iff_shift hrun hls, hshift]
      exact Option.some_ne_none _
    obtain ⟨hindex, hends⟩ := hleads.repeatIndex_eq hls hrepeated hplaces
    simp only [hindex]
    exact ⟨Draft.lt_faultIndex hls (.inr (Nat.succ_pos _)), hleads.lt_strayIndex hls hordered, _,
      rfl, hends⟩

/-- A method repeats a parameter, the next one has a number for its name, and
behind that stands a character of no token. -/
def threefold : String :=
  "IT'S SHOWTIME\nYOU HAVE BEEN TERMINATED\nLISTEN TO ME VERY CAREFULLY f\n" ++
    "I NEED YOUR CLOTHES YOUR BOOTS AND YOUR MOTORCYCLE x\n" ++
    "I NEED YOUR CLOTHES YOUR BOOTS AND YOUR MOTORCYCLE x\n" ++
    "HASTA LA VISTA, BABY\nLISTEN TO ME VERY CAREFULLY 1 @"

/-- Of its errors the repeated parameter is met first. -/
theorem threefold_reports_parameter :
    Program.parse threefold = .error (.parser ("duplicate parameter " ++ "\"x\"")
      { start := 173, stop := 174, line := 5, column := 52 }) ∧
    let s := (Lexer.ofSource threefold).stream
    s.repeatIndex < s.faultIndex ∧ s.repeatIndex < s.strayIndex ∧
      ∃ (k : ℕ) (name : String), s.repeatIndex = k ∧
        EndsRepeating name { start := 173, stop := 174, line := 5, column := 52 }
          (s.lexemes.take k) := by
  have hparse : Program.parse threefold = .error (.parser ("duplicate parameter " ++ "\"x\"")
      { start := 173, stop := 174, line := 5, column := 52 }) := by
    decide +kernel
  refine ⟨hparse, ?_⟩
  obtain ⟨e, he, hfirst⟩ := first_error_is_reported hparse
  cases e with
  | lex fault => cases he
  | unexpected found expected span =>
    have hmessage := (CompileError.parser.inj he).1
    rw [String.append_assoc] at hmessage
    exact absurd hmessage (duplicate_ne_unexpected _ _)
  | repeatedParameter name span =>
    obtain ⟨hfault, hstray, k, hk, hends⟩ := hfirst
    obtain ⟨-, rfl⟩ := CompileError.parser.inj he
    exact ⟨hfault, hstray, k, name, hk, hends⟩

end Showtime
