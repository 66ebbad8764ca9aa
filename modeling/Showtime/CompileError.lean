/-
# Errors before a program runs

Whatever goes wrong while a source is read, cut into tokens or parsed, or while
settings are loaded, ends up as one of these, with the sentence that a reader
sees and, for the faults of a source, the place.
-/

import Showtime.Token.Lexer

namespace Showtime

/-- An error raised before a program runs. -/
inductive CompileError where
  | lexer (message : String) (span : Span)
  | parser (message : String) (span : Span)
  | io (message : String)
  | config (message : String)
deriving DecidableEq, Repr

namespace CompileError

/-- The sentence without kind and place. -/
def message : CompileError → String
  | lexer message _ => message
  | parser message _ => message
  | io message => message
  | config message => message

/-- The place in the source, for the faults of a source. -/
def span? : CompileError → Option Span
  | lexer _ span => some span
  | parser _ span => some span
  | io _ => none
  | config _ => none

/-- The first line of a report: kind and place, or kind and sentence where
there is no place. -/
def headline : CompileError → String
  | lexer _ span => s!"Lexer error on {span.render}"
  | parser _ span => s!"Parser error on {span.render}"
  | io message => s!"IO error: {message}"
  | config message => s!"Config error: {message}"

/-- Kind, place and sentence in one line. -/
def render (e : CompileError) : String :=
  match e.span? with
  | some _ => s!"{e.headline}: {e.message}"
  | none => e.headline

end CompileError

/-- A fault of the lexer as an error. -/
def LexError.toCompileError (e : LexError) : CompileError :=
  .lexer e.message e.span

end Showtime
