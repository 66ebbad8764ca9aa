/-
# Programs being read

A draft is a program of which the first tokens were read.  `Draft.shift` takes
one more token and gives `none` where no program goes on with it; a draft is
therefore always the start of some program.

The kinds of tokens that can come next are those that `shift` takes.  Where the
token that did come ends a statement somewhere in the grammar, a statement that
needs no more tokens is completed first: its further operands are then not
among the kinds that are offered.
-/

import Showtime.Parser.Body
import Showtime.Parser.Terminal

namespace Showtime
namespace Parser

/-- A parameter with the bytes at which its name starts and stops. -/
structure Param where
  name : String
  start : Nat
  stop : Nat
deriving DecidableEq, Repr

/-- The place of the name in the source. -/
def Param.place (p : Param) (source : String) : Span :=
  Span.locate source p.start p.stop

/-- A complete method. -/
structure Definition where
  name : String
  params : List Param
  body : List Statement
deriving DecidableEq, Repr

/-- The method without the places of its parameters. -/
def Definition.toMethod (d : Definition) : Method :=
  { name := d.name, params := d.params.map Param.name, body := d.body }

/-- The methods that are complete: the entry method and the named ones, latest
first. -/
structure Finished where
  main : List Statement
  methods : List Definition
deriving DecidableEq, Repr

/-- The program of the complete methods. -/
def Finished.toProgram (f : Finished) : Program :=
  { main := .main f.main, methods := (f.methods.map Definition.toMethod).reverse }

/-- A program of which the first tokens were read.  Parameters have the latest
first. -/
inductive Draft where
  | start
  | main (body : Body)
  /-- A method has just ended. -/
  | closed (finished : Finished)
  | naming (finished : Finished)
  /-- The header of a method, which can go on or end. -/
  | header (finished : Finished) (name : String) (params : List Param)
  | param (finished : Finished) (name : String) (params : List Param)
  | method (finished : Finished) (name : String) (params : List Param) (body : Body)
deriving DecidableEq, Repr

namespace Draft

/-- Takes a token inside the entry method. -/
def shiftMain (body : Body) (t : Token) : Option Draft :=
  match t with
  | .phrase .mainClose => body.close?.map fun main => .closed { main, methods := [] }
  | t => (body.shift t).map .main

/-- Takes a token inside the body of a named method. -/
def shiftMethod (f : Finished) (name : String) (params : List Param) (body : Body) (t : Token) :
    Option Draft :=
  match t with
  | .phrase .methodClose => body.close?.map fun body =>
      .closed { f with methods := { name, params := params.reverse, body } :: f.methods }
  | t => (body.shift t).map (.method f name params)

/-- Takes one more token. -/
def shift (d : Draft) (l : Lexeme) : Option Draft :=
  match d with
  | start => if l.token = .phrase .mainOpen then some (main .empty) else none
  | main body => shiftMain body l.token
  | closed f => if l.token = .phrase .methodOpen then some (naming f) else none
  | naming f => (name? l.token).map fun name => header f name []
  | header f name params =>
    match l.token with
    | .phrase .parameter => some (param f name params)
    | .phrase .parametersEnd => some (method f name params .empty)
    | t => shiftMethod f name params .empty t
  | param f name params =>
    (name? l.token).map fun x =>
      header f name ({ name := x, start := l.span.start, stop := l.span.stop } :: params)
  | method f name params body => shiftMethod f name params body l.token

/-- Completes a statement that needs no more tokens. -/
def settle : Draft → Draft
  | main body => main body.settle
  | method f name params body => method f name params body.settle
  | d => d

/-- The program, if it can end here. -/
def finish? : Draft → Option Program
  | closed f => some f.toProgram
  | _ => none

/-! ### What can come next -/

/-- A token of a kind can come next. -/
def accepts (d : Draft) (t : Terminal) : Bool :=
  (d.shift { token := t.sample, span := default }).isSome

/-- The kinds of tokens that can come next. -/
def nextKinds (d : Draft) : List Terminal :=
  Terminal.all.filter d.accepts

/-- The phrases that can come right after a statement, somewhere in the grammar. -/
def endsStatement (p : Phrase) : Bool :=
  (opened? p).isSome ||
    p ∈ [Phrase.mainClose, .methodClose, .otherwise, .branchEnd, .loopEnd]

/-- The kinds that are offered in place of a token that cannot come next. -/
def expectedFor (d : Draft) : Token → List Terminal
  | .phrase p => if endsStatement p then d.settle.nextKinds else d.nextKinds
  | _ => d.nextKinds

/-! ### Repeated parameters -/

/-- The first parameter whose name is among `seen` or the names before it. -/
def firstRepeat? (seen : List String) : List Param → Option Param
  | [] => none
  | p :: rest => if p.name ∈ seen then some p else firstRepeat? (p.name :: seen) rest

/-- The first repeated parameter of the method that has just ended. -/
def repeated? : Draft → Option Param
  | closed { methods := m :: _, .. } => firstRepeat? [] m.params
  | _ => none

end Draft
end Parser
end Showtime
