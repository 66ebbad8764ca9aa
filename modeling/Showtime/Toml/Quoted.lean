/-
# Settings documents: strings

Four forms of strings: between double quotes with escapes, or between single
quotes as they are; and each of them on one line, or on several lines between
three quotes.  On several lines a line end right after the opening is dropped,
every line end is one line feed, up to two quotes may stand before the closing
three, and, with escapes, a backslash before a line end drops all blanks and
line ends up to the next text.
-/

import Showtime.Text.Digit

namespace Showtime
namespace Toml

/-- Can stand in a string or a comment: a tab, printable ASCII, or no ASCII. -/
def isTextChar (c : Char) : Bool :=
  c == '\t' || (0x20 ≤ c.toNat && c.toNat ≤ 0x7E) || 0x80 ≤ c.toNat

/-- A space or a tab. -/
def isBlank (c : Char) : Bool :=
  c == ' ' || c == '\t'

/-- The text after a line end. -/
def newline? : List Char → Option (List Char)
  | '\n' :: rest => some rest
  | '\r' :: '\n' :: rest => some rest
  | _ => none

/-- Reads what follows a backslash. -/
def escape? : List Char → Option (Char × List Char)
  | 'b' :: rest => some ('\x08', rest)
  | 't' :: rest => some ('\t', rest)
  | 'n' :: rest => some ('\n', rest)
  | 'f' :: rest => some ('\x0c', rest)
  | 'r' :: rest => some ('\r', rest)
  | '"' :: rest => some ('"', rest)
  | '\\' :: rest => some ('\\', rest)
  | 'u' :: rest => do
    let (n, rest) ← Text.hexDigits? 4 rest
    return (← Text.charAt? n, rest)
  | 'U' :: rest => do
    let (n, rest) ← Text.hexDigits? 8 rest
    return (← Text.charAt? n, rest)
  | _ => none

/-- The quotes of a string: double with escapes, or single without. -/
inductive Quotes where
  | basic
  | literal
deriving DecidableEq

/-- The quote character. -/
def Quotes.char : Quotes → Char
  | basic => '"'
  | literal => '\''

/-- Reads a string on one line after its opening quote, `done` being read
already, latest character first.  `fuel` bounds the characters. -/
def line? (q : Quotes) (fuel : Nat) (done cs : List Char) : Option (String × List Char) :=
  match fuel, cs with
  | 0, _ => none
  | _, [] => none
  | fuel + 1, c :: rest =>
    if c = q.char then some (String.ofList done.reverse, rest)
    else if q = .basic ∧ c = '\\' then
      match escape? rest with
      | some (c, rest) => line? q fuel (c :: done) rest
      | none => none
    else if isTextChar c then line? q fuel (c :: done) rest
    else none

/-- Drops blanks and line ends. -/
def skipLines : Nat → List Char → List Char
  | 0, cs => cs
  | fuel + 1, cs =>
    match newline? cs with
    | some rest => skipLines fuel rest
    | none =>
      match cs with
      | c :: rest => if isBlank c then skipLines fuel rest else cs
      | [] => []

/-- Reads a string on several lines after its opening quotes, `done` being read
already, latest character first.  `fuel` bounds the characters. -/
def lines? (q : Quotes) (fuel : Nat) (done cs : List Char) : Option (String × List Char) :=
  match fuel, cs with
  | 0, _ => none
  | _, [] => none
  | fuel + 1, c :: rest =>
    if c = q.char then
      let quotes := cs.takeWhile (· == q.char)
      let after := cs.dropWhile (· == q.char)
      if quotes.length < 3 then lines? q fuel (quotes ++ done) after
      else if quotes.length ≤ 5 then
        some (String.ofList (quotes.drop 3 ++ done).reverse, after)
      else none
    else if q = .basic ∧ c = '\\' then
      match newline? (rest.dropWhile isBlank) with
      | some rest => lines? q fuel done (skipLines rest.length rest)
      | none =>
        match escape? rest with
        | some (c, rest) => lines? q fuel (c :: done) rest
        | none => none
    else
      match newline? cs with
      | some rest => lines? q fuel ('\n' :: done) rest
      | none => if isTextChar c then lines? q fuel (c :: done) rest else none

/-- Reads a string on several lines, after its opening quotes. -/
def multiline? (q : Quotes) (cs : List Char) : Option (String × List Char) :=
  let cs := (newline? cs).getD cs
  lines? q (cs.length + 1) [] cs

/-- Reads a string of any form. -/
def string? : List Char → Option (String × List Char)
  | '"' :: '"' :: '"' :: rest => multiline? .basic rest
  | '\'' :: '\'' :: '\'' :: rest => multiline? .literal rest
  | '"' :: rest => line? .basic (rest.length + 1) [] rest
  | '\'' :: rest => line? .literal (rest.length + 1) [] rest
  | _ => none

end Toml
end Showtime
