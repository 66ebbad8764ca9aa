/-
# Tokens

The words of a program: an instruction phrase, then its operands.  A character
that starts no operand is a token of its own, so that the parser can say that
it was not expected there.
-/

import Showtime.Phrase
import Showtime.Source.Span
import Showtime.Text.Quoted

namespace Showtime

/-- A token with its value. -/
inductive Token where
  | phrase (p : Phrase)
  | int (n : Int64)
  | str (s : String)
  | var (name : String)
  | truth (b : Bool)
  /-- A character in operand position that starts no operand. -/
  | symbol (c : Char)
deriving DecidableEq, Repr

/-- How a token is named in messages and listings. -/
def Token.render : Token → String
  | phrase p => Text.quote p.text
  | int n => s!"integer {n.toInt}"
  | str s => s!"string {Text.quote s}"
  | var name => s!"variable {Text.quote name}"
  | truth b => s!"@{truthText b}"
  | symbol c => Text.quoteChar c

/-- How the end of the input is named where a token could stand. -/
def endText : String := "end of input"

/-- A token with its place in the source. -/
structure Lexeme where
  token : Token
  span : Span
deriving DecidableEq, Repr

end Showtime
