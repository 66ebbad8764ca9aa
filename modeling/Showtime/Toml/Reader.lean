/-
# Settings documents: reading

`parse?` reads a whole document: settings, headers, comments and empty lines.
Arrays and tables in braces nest at most `maxNesting` deep, and a key has at most
that many parts with dots; the bound also ends the recursion.
-/

import Showtime.Toml.Quoted
import Showtime.Toml.Scalar

namespace Showtime
namespace Toml

/-- How deep values may nest. -/
def maxNesting : Nat := 79

/-! ### Blanks and comments -/

/-- Drops blanks. -/
def skipBlanks (cs : List Char) : List Char :=
  cs.dropWhile isBlank

/-- The text after a comment, if there is one. -/
def skipComment : List Char → List Char
  | '#' :: rest => rest.dropWhile isTextChar
  | cs => cs

/-- The text after the end of a line: blanks, a comment, and the line end or the
end of the document. -/
def lineEnd? (cs : List Char) : Option (List Char) :=
  match skipComment (skipBlanks cs) with
  | [] => some []
  | cs => newline? cs

/-- Drops blanks, comments and line ends. -/
def skipFiller : Nat → List Char → List Char
  | 0, cs => cs
  | fuel + 1, cs =>
    match skipComment (skipBlanks cs) with
    | [] => []
    | cs =>
      match newline? cs with
      | some rest => skipFiller fuel rest
      | none => cs

/-! ### Keys -/

/-- Can stand in a key without quotes. -/
def isBareKeyChar (c : Char) : Bool :=
  c.isAlphanum || c == '_' || c == '-'

/-- Reads one part of a key. -/
def simpleKey? (cs : List Char) : Option (String × List Char) :=
  match cs with
  | '"' :: rest => line? .basic (rest.length + 1) [] rest
  | '\'' :: rest => line? .literal (rest.length + 1) [] rest
  | cs =>
    match cs.takeWhile isBareKeyChar with
    | [] => none
    | key => some (String.ofList key, cs.dropWhile isBareKeyChar)

/-- Reads a key with dots: the parts before the last, latest first in `path`, and
the last part.  `fuel` bounds the parts. -/
def key? : Nat → List String → List Char → Option ((List String × String) × List Char)
  | 0, _, _ => none
  | fuel + 1, path, cs => do
    let (part, rest) ← simpleKey? (skipBlanks cs)
    match skipBlanks rest with
    | '.' :: rest => key? fuel (part :: path) rest
    | rest => return ((path.reverse, part), rest)

/-- Reads a key with dots, blanks around it included. -/
def dottedKey? (cs : List Char) : Option ((List String × String) × List Char) :=
  key? maxNesting [] cs

/-! ### Values -/

/-- A reader of values, for the parts of a value. -/
abbrev ReadValue := List Char → Option (Value × List Char)

/-- Reads the items of an array and its end, `done` being read already, latest
item first. -/
def items? (value? : ReadValue) (fuel : Nat) (done : List Value) (cs : List Char) :
    Option (Value × List Char) :=
  match fuel with
  | 0 => none
  | fuel + 1 =>
    match skipFiller cs.length cs with
    | ']' :: rest => some (.array done.reverse, rest)
    | cs => do
      let (item, rest) ← value? cs
      match skipFiller rest.length rest with
      | ',' :: rest => items? value? fuel (item :: done) rest
      | ']' :: rest => some (.array (item :: done).reverse, rest)
      | _ => none

/-- Reads a key, the sign of equality and a value. -/
def setting? (value? : ReadValue) (cs : List Char) : Option (Setting × List Char) := do
  let ((path, key), rest) ← dottedKey? cs
  match rest with
  | '=' :: rest =>
    let (value, rest) ← value? (skipBlanks rest)
    return ({ path, key, value }, rest)
  | _ => none

/-- Reads the settings of a table in braces and its end, `done` being read
already, latest setting first. -/
def bracedSettings? (value? : ReadValue) (fuel : Nat) (done : List Setting) (cs : List Char) :
    Option (List Setting × List Char) :=
  match fuel with
  | 0 => none
  | fuel + 1 => do
    let (setting, rest) ← setting? value? cs
    match skipBlanks rest with
    | ',' :: rest => bracedSettings? value? fuel (setting :: done) rest
    | '\x7d' :: rest => some ((setting :: done).reverse, rest)
    | _ => none

/-- Reads a table in braces after its opening. -/
def braced? (value? : ReadValue) (cs : List Char) : Option (Value × List Char) :=
  match skipBlanks cs with
  | '\x7d' :: rest => some (.table .braces [], rest)
  | cs => do
    let (settings, rest) ← bracedSettings? value? cs.length [] cs
    return (.table .braces (← insertAll settings []), rest)

/-- Reads a value that is one word, or a date and a time with a space between. -/
def wordValue? (cs : List Char) : Option (Value × List Char) := do
  let word := cs.takeWhile isWordChar
  let rest := cs.dropWhile isWordChar
  let alone := (← word? word, rest)
  match rest with
  | ' ' :: after =>
    let time := after.takeWhile isWordChar
    if isDate word && isTimeOfDay time then
      return (.time (String.ofList (word ++ ' ' :: time)), after.dropWhile isWordChar)
    else return alone
  | _ => return alone

/-- Reads a value; arrays and tables in braces nest at most `depth` deep. -/
def value? (depth : Nat) (cs : List Char) : Option (Value × List Char) :=
  match depth, cs with
  | _, '"' :: _ => (string? cs).map fun (s, rest) => (.str s, rest)
  | _, '\'' :: _ => (string? cs).map fun (s, rest) => (.str s, rest)
  | 0, '[' :: _ => none
  | 0, '\x7b' :: _ => none
  | depth + 1, '[' :: rest => items? (value? depth) cs.length [] rest
  | depth + 1, '\x7b' :: rest => braced? (value? depth) rest
  | _, cs => wordValue? cs

/-! ### Documents -/

/-- Reads a header after its opening brackets. -/
def header? (repeated : Bool) (cs : List Char) : Option (Section × List Char) := do
  let ((path, key), rest) ← dottedKey? cs
  let head : Section := { path, key, repeated, settings := [] }
  match repeated, rest with
  | false, ']' :: rest => return (head, rest)
  | true, ']' :: ']' :: rest => return (head, rest)
  | _, _ => none

/-- A document of which the first lines were read: the document without the
section that is open, and that section with its settings, latest first. -/
structure Reading where
  document : Entries
  /-- `none` before the first header. -/
  head : Option Section
  settings : List Setting

/-- Adds the open section to the document. -/
def Reading.close (r : Reading) : Option Entries :=
  match r.head with
  | none => insertAll r.settings.reverse r.document
  | some head => { head with settings := r.settings.reverse }.addTo r.document

/-- Reads the lines of a document.  `fuel` bounds their number. -/
def document? (fuel : Nat) (r : Reading) (cs : List Char) : Option Entries :=
  match fuel with
  | 0 => none
  | fuel + 1 =>
    match skipFiller cs.length cs with
    | [] => r.close
    | '[' :: rest => do
      let (head, rest) ← match rest with
        | '[' :: rest => header? true rest
        | rest => header? false rest
      let next := { document := ← r.close, head := some head, settings := [] }
      document? fuel next (← lineEnd? rest)
    | cs => do
      let (setting, rest) ← setting? (value? maxNesting) cs
      document? fuel { r with settings := setting :: r.settings } (← lineEnd? rest)

/-- The table of a document. -/
def parse? (text : String) : Option Entries :=
  let cs := match text.toList with
    | '\uFEFF' :: cs => cs
    | cs => cs
  document? (cs.length + 1) { document := [], head := none, settings := [] } cs

end Toml
end Showtime
