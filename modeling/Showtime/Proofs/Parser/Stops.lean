/-
# Where reading stops

A source that is no program is read up to some token, or up to its end, and
there is one reason why reading stops there (`Draft.Stops`).  Everything before
that point was in order: each token could come next, and no method that had
ended repeated a parameter (`Draft.Leads`).  `Program.read_eq_error` takes every
error of a source back to such a point.
-/

import Showtime.Proofs.Parser.Acceptance

namespace Showtime
namespace Parser
namespace Draft

/-- Tokens lead from one draft to another, and no draft on the way, the last
one apart, has a method at its end that repeats a parameter. -/
inductive Leads : Draft → List Lexeme → Draft → Prop
  | nil (d : Draft) : Leads d [] d
  | cons {d d₁ d' l ls} (hshift : d.shift l = some d₁) (hnone : d.repeated? = none)
    (hrest : Leads d₁ ls d') : Leads d (l :: ls) d'

/-- The reason why reading stops at a draft, with these tokens ahead. -/
inductive Stops (source : String) (fault : Option LexError) (last : Nat) (d : Draft) :
    List Lexeme → ParseError → Prop
  | fault {e} (h : fault = some e) : Stops source fault last d [] (.lex e)
  | unfinished (h : fault = none) (hfinish : d.finish? = none) :
    Stops source fault last d [] (.unexpected none d.nextKinds (Span.locate source last last))
  | repeatedAtEnd {p param} (h : fault = none) (hfinish : d.finish? = some p)
    (hrepeated : d.repeated? = some param) :
    Stops source fault last d [] (.repeatedParameter param.name (param.place source))
  | impossible {l rest} (hshift : d.shift l = none) :
    Stops source fault last d (l :: rest)
      (.unexpected (some l.token) (d.expectedFor l.token) (l.place source))
  | repeatedBefore {l rest next param} (hshift : d.shift l = some next)
    (hrepeated : d.repeated? = some param) :
    Stops source fault last d (l :: rest) (.repeatedParameter param.name (param.place source))

variable {source : String} {fault : Option LexError} {last : Nat} {d d' : Draft}
  {ls : List Lexeme} {e : ParseError}

/-- Tokens that lead to a draft are read to it. -/
theorem Leads.run (h : d.Leads ls d') : d.run ls = some d' := by
  induction h with
  | nil d => rfl
  | cons hshift _ _ ih => rw [run_cons hshift, ih]

/-- **Whatever is wrong, reading stops for a reason, and all was in order before.** -/
theorem readAll_eq_error (h : d.readAll source fault last ls = .error e) :
    ∃ ks rest d' last', ls = ks ++ rest ∧ d.Leads ks d' ∧ d'.Stops source fault last' rest e := by
  induction ls generalizing d last with
  | nil =>
    refine ⟨[], [], d, last, rfl, .nil d, ?_⟩
    unfold readAll at h
    split at h <;> cases h
    · exact .fault rfl
    · next hfinish => exact .unfinished rfl hfinish
    · next hfinish hrepeated => exact .repeatedAtEnd rfl hfinish hrepeated
  | cons l ls ih =>
    rw [readAll] at h
    split at h
    · next hshift =>
      cases h
      exact ⟨[], l :: ls, d, last, rfl, .nil d, .impossible hshift⟩
    · next hshift hrepeated =>
      cases h
      exact ⟨[], l :: ls, d, last, rfl, .nil d, .repeatedBefore hshift hrepeated⟩
    · next hshift hnone =>
      obtain ⟨ks, rest, d', last', rfl, hleads, hstops⟩ := ih h
      exact ⟨l :: ks, rest, d', last', rfl, .cons hshift hnone hleads, hstops⟩

end Draft
end Parser

open Showtime.Parser (Draft)

/-- Every error of a source goes back to the point where reading stops. -/
theorem Program.read_eq_error {source : String} {e : ParseError}
    (h : Program.read source = .error e) :
    ∃ ks rest d last, (Lexer.ofSource source).stream.lexemes = ks ++ rest ∧
      Draft.start.Leads ks d ∧ d.Stops source (Lexer.ofSource source).stream.fault last rest e :=
  Parser.Draft.readAll_eq_error h

/-- An error is reported with its sentence and place. -/
theorem Program.parse_eq_error {source : String} {err : CompileError}
    (h : Program.parse source = .error err) :
    ∃ e, Program.read source = .error e ∧ err = e.toCompileError := by
  rw [Program.parse] at h
  cases hread : Program.read source with
  | ok p =>
    rw [hread] at h
    cases h
  | error e =>
    rw [hread] at h
    exact ⟨e, rfl, (Except.error.inj h).symm⟩

/-- A repeated parameter is reported in other words than a token that cannot
come next. -/
theorem duplicate_ne_unexpected (name text : String) :
    "duplicate parameter " ++ name ≠ "unexpected " ++ text := by
  intro h
  have hchars := congrArg String.toList h
  rw [String.toList_append, String.toList_append] at hchars
  cases hchars

end Showtime
