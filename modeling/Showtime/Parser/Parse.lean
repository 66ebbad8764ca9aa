/-
# From tokens to a program

`Program.parse` reads a source.  Of the things that can be wrong with it, the
one that is met first is reported; at one and the same token a fault of the
lexer goes before a token that cannot come next, and that before a repeated
parameter in the method that ends just before the token.
-/

import Showtime.CompileError
import Showtime.Parser.Draft

namespace Showtime

/-- Why a source is no program. -/
inductive ParseError where
  | lex (e : LexError)
  /-- A token, or the end of the input, that cannot come next. -/
  | unexpected (found : Option Token) (expected : List Terminal) (span : Span)
  | repeatedParameter (name : String) (span : Span)
deriving DecidableEq, Repr

namespace ParseError

/-- The kinds that could have come, as the end of a sentence. -/
def expectedClause (expected : List Terminal) : String :=
  match expected.map fun t => "\"" ++ t.text ++ "\"" with
  | [] => ""
  | [one] => ", expected " ++ one
  | many => ", expected one of " ++ ", ".intercalate many

/-- The error with its sentence and place. -/
def toCompileError : ParseError → CompileError
  | lex e => e.toCompileError
  | unexpected found expected span =>
    let subject := (found.map Token.render).getD endText
    .parser ("unexpected " ++ subject ++ expectedClause expected) span
  | repeatedParameter name span => .parser ("duplicate parameter " ++ Text.quote name) span

end ParseError

/-- The place of a token, found from the bytes at which it starts and stops. -/
def Lexeme.place (l : Lexeme) (source : String) : Span :=
  Span.locate source l.span.start l.span.stop

namespace Parser

/-- Reads the rest of a program: the tokens ahead, and the fault of the lexer
behind them if there is one.  `last` is where the token before them ends. -/
def Draft.readAll (source : String) (fault : Option LexError) (d : Draft) (last : Nat) :
    List Lexeme → Except ParseError Program
  | [] =>
    match fault, d.finish?, d.repeated? with
    | some e, _, _ => .error (.lex e)
    | none, none, _ => .error (.unexpected none d.nextKinds (Span.locate source last last))
    | none, some _, some p => .error (.repeatedParameter p.name (p.place source))
    | none, some program, none => .ok program
  | l :: rest =>
    match d.shift l, d.repeated? with
    | none, _ => .error (.unexpected (some l.token) (d.expectedFor l.token) (l.place source))
    | some _, some p => .error (.repeatedParameter p.name (p.place source))
    | some next, none => next.readAll source fault l.span.stop rest

/-- Reads the tokens of a source. -/
def readStream (source : String) (stream : TokenStream) : Except ParseError Program :=
  Draft.start.readAll source stream.fault 0 stream.lexemes

end Parser

/-- The program of a source, or why it is none. -/
def Program.read (source : String) : Except ParseError Program :=
  Parser.readStream source (Lexer.ofSource source).stream

/-- The program of a source, or the error to report. -/
def Program.parse (source : String) : Except CompileError Program :=
  (Program.read source).mapError ParseError.toCompileError

/-- What was reported of bytes that are not UTF-8. -/
def invalidUtf8 : String := "stream did not contain valid UTF-8"

/-- The program of the bytes that a reader delivers before its end or before it
fails, `failure` being what it says then.  A failure goes before all that is
wrong with the bytes. -/
def Program.parseBytes (chunks : List ByteArray) (failure : Option String) :
    Except CompileError Program :=
  match failure, String.fromUTF8? (chunks.foldl (· ++ ·) .empty) with
  | some message, _ => .error (.io message)
  | none, none => .error (.io invalidUtf8)
  | none, some source => Program.parse source

end Showtime
