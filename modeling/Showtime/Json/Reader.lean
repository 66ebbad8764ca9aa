/-
# Reading JSON

A reader for the whole format.  Each function takes the text ahead and gives
what it read with the text that remains.  Values nest, so the reader of values
counts down a bound on the nesting; the length of the text is one.

A number is an integer when it has neither fraction nor exponent and is not a
negative zero, which only a number with a sign of zero can express.
-/

import Showtime.Json.Basic
import Showtime.Text.Digit

namespace Showtime
namespace Json
namespace Reader

/-- Drops white space. -/
def skipSpace (cs : List Char) : List Char :=
  cs.dropWhile fun c => c == ' ' || c == '\t' || c == '\n' || c == '\r'

/-- Reads a code unit and, when it opens a surrogate pair, the unit that closes
the pair. -/
def unicode? (cs : List Char) : Option (Char × List Char) := do
  let (high, rest) ← Text.hexDigits? 4 cs
  if 0xD800 ≤ high ∧ high < 0xDC00 then
    match rest with
    | '\\' :: 'u' :: rest =>
      let (low, rest) ← Text.hexDigits? 4 rest
      if 0xDC00 ≤ low ∧ low < 0xE000 then
        return (Char.ofNat (0x10000 + (high - 0xD800) * 0x400 + (low - 0xDC00)), rest)
      else none
    | _ => none
  else
    return (← Text.charAt? high, rest)

/-- Reads what follows a backslash. -/
def escape? : List Char → Option (Char × List Char)
  | '"' :: rest => some ('"', rest)
  | '\\' :: rest => some ('\\', rest)
  | '/' :: rest => some ('/', rest)
  | 'b' :: rest => some ('\x08', rest)
  | 'f' :: rest => some ('\x0c', rest)
  | 'n' :: rest => some ('\n', rest)
  | 'r' :: rest => some ('\r', rest)
  | 't' :: rest => some ('\t', rest)
  | 'u' :: rest => unicode? rest
  | _ => none

/-- Reads a string after its opening quote, `done` being read already, latest
character first. -/
def string? (fuel : Nat) (done : List Char) (cs : List Char) : Option (String × List Char) :=
  match fuel, cs with
  | 0, _ => none
  | _, [] => none
  | _ + 1, '"' :: rest => some (String.ofList done.reverse, rest)
  | fuel + 1, '\\' :: rest => do
    let (c, rest) ← escape? rest
    string? fuel (c :: done) rest
  | fuel + 1, c :: rest => if c.toNat < 0x20 then none else string? fuel (c :: done) rest

/-- Digits, and the text after them. -/
def digits (cs : List Char) : List Char × List Char :=
  (cs.takeWhile Char.isDigit, cs.dropWhile Char.isDigit)

/-- Reads the fraction of a number, if there is one. -/
def fraction? : List Char → Option (List Char × List Char)
  | '.' :: cs => match digits cs with
    | ([], _) => none
    | (ds, rest) => some ('.' :: ds, rest)
  | cs => some ([], cs)

/-- Reads the digits of an exponent with its sign. -/
def signedDigits? (cs : List Char) : Option (List Char × List Char) :=
  let (sign, cs) := match cs with
    | '+' :: cs => (['+'], cs)
    | '-' :: cs => (['-'], cs)
    | cs => ([], cs)
  match digits cs with
  | ([], _) => none
  | (ds, rest) => some (sign ++ ds, rest)

/-- Reads the exponent of a number, if there is one. -/
def exponent? : List Char → Option (List Char × List Char)
  | c :: cs =>
    if c = 'e' ∨ c = 'E' then
      (signedDigits? cs).map fun (ds, rest) => (c :: ds, rest)
    else some ([], c :: cs)
  | [] => some ([], [])

/-- The number with these parts. -/
def number (negative : Bool) (whole tail : List Char) : Json :=
  let magnitude := Nat.ofDigitChars 10 whole 0
  if tail.isEmpty && !(negative && magnitude == 0) then
    int (if negative then -(magnitude : Int) else magnitude)
  else
    real (String.ofList ((if negative then ['-'] else []) ++ whole ++ tail))

/-- Reads a number. -/
def number? (cs : List Char) : Option (Json × List Char) := do
  let (negative, cs) := match cs with
    | '-' :: cs => (true, cs)
    | cs => (false, cs)
  let (whole, rest) := digits cs
  match whole with
  | [] => none
  | '0' :: _ :: _ => none
  | whole =>
    let (frac, rest) ← fraction? rest
    let (exp, rest) ← exponent? rest
    return (number negative whole (frac ++ exp), rest)

/-- Reads the rest of a word. -/
def word? : List Char → Json → List Char → Option (Json × List Char)
  | [], value, rest => some (value, rest)
  | w :: ws, value, c :: rest => if w = c then word? ws value rest else none
  | _ :: _, _, [] => none

mutual

/-- Reads a value. -/
def value? (fuel : Nat) (cs : List Char) : Option (Json × List Char) :=
  match fuel with
  | 0 => none
  | fuel + 1 =>
    match skipSpace cs with
    | '"' :: rest => (string? (rest.length + 1) [] rest).map fun (s, rest) => (str s, rest)
    | '[' :: rest =>
      match skipSpace rest with
      | ']' :: rest => some (arr [], rest)
      | rest => items? fuel [] rest
    | '\x7b' :: rest =>
      match skipSpace rest with
      | '\x7d' :: rest => some (obj [], rest)
      | rest => fields? fuel [] rest
    | 'n' :: rest => word? ['u', 'l', 'l'] null rest
    | 't' :: rest => word? ['r', 'u', 'e'] (bool true) rest
    | 'f' :: rest => word? ['a', 'l', 's', 'e'] (bool false) rest
    | rest => number? rest

/-- Reads the items of an array and its end, `done` being read already, latest
item first. -/
def items? (fuel : Nat) (done : List Json) (cs : List Char) : Option (Json × List Char) :=
  match fuel with
  | 0 => none
  | fuel + 1 => do
    let (value, rest) ← value? fuel cs
    match skipSpace rest with
    | ',' :: rest => items? fuel (value :: done) rest
    | ']' :: rest => some (arr (value :: done).reverse, rest)
    | _ => none

/-- Reads the fields of an object and its end, `done` being read already, latest
field first. -/
def fields? (fuel : Nat) (done : List (String × Json)) (cs : List Char) :
    Option (Json × List Char) :=
  match fuel with
  | 0 => none
  | fuel + 1 =>
    match skipSpace cs with
    | '"' :: rest => do
      let (name, rest) ← string? (rest.length + 1) [] rest
      match skipSpace rest with
      | ':' :: rest =>
        let (value, rest) ← value? fuel rest
        match skipSpace rest with
        | ',' :: rest => fields? fuel ((name, value) :: done) rest
        | '\x7d' :: rest => some (obj ((name, value) :: done).reverse, rest)
        | _ => none
      | _ => none
    | _ => none

end

end Reader

/-- The value of a text that holds nothing else. -/
def parse? (text : String) : Option Json :=
  let cs := text.toList
  match Reader.value? (cs.length + 1) cs with
  | some (value, rest) => if (Reader.skipSpace rest).isEmpty then some value else none
  | none => none

end Json
end Showtime
