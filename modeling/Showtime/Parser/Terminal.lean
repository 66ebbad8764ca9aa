/-
# Kinds of tokens

The grammar does not look at the value of an operand, only at its kind.  A
message that says what could have come next lists kinds, in the order of `all`.
A symbol is of no kind: no rule of the grammar takes one.
-/

import Showtime.Token.Basic

namespace Showtime

/-- The kinds of tokens that the grammar tells apart. -/
inductive Terminal where
  | phrase (p : Phrase)
  | int
  | str
  | var
  | truth
deriving DecidableEq, Repr

namespace Terminal

/-- All kinds: the phrases as in the manual, then the operands. -/
def all : List Terminal :=
  Phrase.all.map phrase ++ [int, str, var, truth]

/-- No kind of token is missing from the list. -/
theorem mem_all (t : Terminal) : t ∈ all := by
  cases t with
  | phrase p => exact List.mem_append_left _ (List.mem_map_of_mem (Phrase.mem_all p))
  | _ => simp [all]

/-- How a kind is named in messages. -/
def text : Terminal → String
  | phrase p => p.text
  | int => "integer"
  | str => "string"
  | var => "variable"
  | truth => "macro"

/-- Some token of the kind. -/
def sample : Terminal → Token
  | phrase p => .phrase p
  | int => .int 0
  | str => .str ""
  | var => .var ""
  | truth => .truth true

end Terminal

/-- The kind of a token. -/
def Token.terminal? : Token → Option Terminal
  | phrase p => some (.phrase p)
  | int _ => some .int
  | str _ => some .str
  | var _ => some .var
  | truth _ => some .truth
  | symbol _ => none

/-- The sample of a kind is of that kind. -/
@[simp]
theorem Terminal.terminal?_sample (t : Terminal) : t.sample.terminal? = some t := by
  cases t <;> rfl

end Showtime
