/-
# Settings documents: numbers, dates and times

A value that is neither quoted nor bracketed is one word of letters, digits and
the marks `_ + - . :`.  The functions here decide what a whole word means.

* Integers: decimal with a sign and without leading zeros, or hexadecimal,
  octal, binary after `0x`, `0o`, `0b` without a sign; 64 bits.
* Between two digits there may be one underscore.
* Floats: a fraction, an exponent or both; `inf` and `nan` with a sign.  One that
  is too large for a double is refused.
* Dates and times: `1979-05-27`, `07:32:00.5`, and both joined by a `T` or a
  space, then with or without an offset; a date has to exist.
-/

import Showtime.Integer
import Showtime.Text.Digit
import Showtime.Toml.Basic

namespace Showtime
namespace Toml

/-- The characters of a word. -/
def isWordChar (c : Char) : Bool :=
  c.isAlphanum || c == '_' || c == '+' || c == '-' || c == '.' || c == ':'

/-! ### Numbers -/

/-- The digits of a base without the underscores between them: at least one
digit, and every underscore between two. -/
def stripUnderscores? (base : Nat) : List Char → Option (List Char)
  | [] => none
  | [c] => if (Text.digitIn? base c).isSome then some [c] else none
  | c :: '_' :: rest =>
    if (Text.digitIn? base c).isSome then (stripUnderscores? base rest).map (c :: ·) else none
  | c :: rest =>
    if (Text.digitIn? base c).isSome then (stripUnderscores? base rest).map (c :: ·) else none

/-- A sign, and the text after it. -/
def sign : List Char → Bool × List Char
  | '-' :: cs => (true, cs)
  | '+' :: cs => (false, cs)
  | cs => (false, cs)

/-- An integer of 64 bits. -/
def int? (n : Int) : Option Value :=
  (Integer.ofInt? n).map fun _ => .int n

/-- The integer with these digits in a base. -/
def based? (base : Nat) (cs : List Char) : Option Value := do
  int? (← Text.number? base 0 (← stripUnderscores? base cs))

/-- The digits before the point: no zero leads. -/
def wholeDigits? (cs : List Char) : Option (List Char) := do
  match ← stripUnderscores? 10 cs with
  | '0' :: _ :: _ => none
  | digits => some digits

/-- The least number that rounds to infinity among the doubles. -/
def overflowBound : Nat := Nat.pow 2 1024 - Nat.pow 2 970

/-- The number `digits · 10 ^ exponent` is too large for a double. -/
def overflows (digits : List Char) (exponent : Int) : Bool :=
  let digits := digits.dropWhile (· == '0')
  let size := digits.length + exponent
  if digits.isEmpty || size < 300 then false
  else if 400 < size then true
  else
    let mantissa := (Text.number? 10 0 digits).getD 0
    overflowBound * Nat.pow 10 (-exponent).toNat ≤ mantissa * Nat.pow 10 exponent.toNat

/-- The exponent after its mark; none is zero. -/
def exponent? : List Char → Option Int
  | [] => some 0
  | _ :: cs => do
    let (negative, digits) := sign cs
    let n : Int ← Text.number? 10 0 (← stripUnderscores? 10 digits)
    return if negative then -n else n

/-- The digits after the point. -/
def fraction? : List Char → Option (List Char)
  | [] => some []
  | _ :: digits => stripUnderscores? 10 digits

/-- A number without a mark of its base. -/
def decimal? (word : List Char) : Option Value := do
  let (negative, cs) := sign word
  let isMark (c : Char) : Bool := c == 'e' || c == 'E'
  let mantissa := cs.takeWhile (!isMark ·)
  let whole ← wholeDigits? (mantissa.takeWhile (· != '.'))
  let frac ← fraction? (mantissa.dropWhile (· != '.'))
  let exponent ← exponent? (cs.dropWhile (!isMark ·))
  if cs.all fun c => c != '.' && !isMark c then
    let n : Int ← Text.number? 10 0 whole
    int? (if negative then -n else n)
  else if !negative && overflows (whole ++ frac) (exponent - frac.length) then none
  else return .float (String.ofList word)

/-! ### Dates and times -/

/-- A number of exactly `count` digits, and the text after it. -/
def fixed? (count : Nat) (cs : List Char) : Option (Nat × List Char) :=
  if cs.length < count then none
  else (Text.number? 10 0 (cs.take count)).map fun n => (n, cs.drop count)

/-- The text after one character. -/
def after? (c : Char) : List Char → Option (List Char)
  | d :: rest => if d = c then some rest else none
  | [] => none

/-- The number of days of a month. -/
def daysIn (year month : Nat) : Nat :=
  if month = 2 then
    if year % 4 = 0 ∧ (year % 100 ≠ 0 ∨ year % 400 = 0) then 29 else 28
  else if month ∈ [4, 6, 9, 11] then 30
  else 31

/-- The text after a date that exists. -/
def date? (cs : List Char) : Option (List Char) := do
  let (year, cs) ← fixed? 4 cs
  let (month, cs) ← fixed? 2 (← after? '-' cs)
  let (day, cs) ← fixed? 2 (← after? '-' cs)
  if 1 ≤ month ∧ month ≤ 12 ∧ 1 ≤ day ∧ day ≤ daysIn year month then some cs else none

/-- The text after hours and minutes. -/
def hourMinute? (cs : List Char) : Option (List Char) := do
  let (hour, cs) ← fixed? 2 cs
  let (minute, cs) ← fixed? 2 (← after? ':' cs)
  if hour ≤ 23 ∧ minute ≤ 59 then some cs else none

/-- The text after a fraction of a second, if there is one. -/
def secondFraction? : List Char → Option (List Char)
  | '.' :: cs =>
    if (cs.takeWhile Char.isDigit).isEmpty then none else some (cs.dropWhile Char.isDigit)
  | cs => some cs

/-- The text after a time. -/
def time? (cs : List Char) : Option (List Char) := do
  let (second, cs) ← fixed? 2 (← after? ':' (← hourMinute? cs))
  if second ≤ 60 then secondFraction? cs else none

/-- The text is an offset or nothing. -/
def isOffset : List Char → Bool
  | [] => true
  | ['Z'] => true
  | ['z'] => true
  | '+' :: cs => hourMinute? cs == some []
  | '-' :: cs => hourMinute? cs == some []
  | _ => false

/-- The text is a time with or without an offset. -/
def isTimeOfDay (cs : List Char) : Bool :=
  (time? cs).any isOffset

/-- The word is a date, a time, or both with or without an offset. -/
def isDateTime (word : List Char) : Bool :=
  time? word == some [] ||
    match date? word with
    | none => false
    | some [] => true
    | some (c :: rest) => (c == 'T' || c == 't') && isTimeOfDay rest

/-- The word is a date and nothing else. -/
def isDate (word : List Char) : Bool :=
  date? word == some []

/-! ### Words -/

/-- What a word means. -/
def word? (word : List Char) : Option Value :=
  match word with
  | ['t', 'r', 'u', 'e'] => some (.bool true)
  | ['f', 'a', 'l', 's', 'e'] => some (.bool false)
  | '0' :: 'x' :: digits => based? 16 digits
  | '0' :: 'o' :: digits => based? 8 digits
  | '0' :: 'b' :: digits => based? 2 digits
  | word =>
    if (sign word).2 ∈ [['i', 'n', 'f'], ['n', 'a', 'n']] then
      some (.float (String.ofList word))
    else if isDateTime word then some (.time (String.ofList word))
    else decimal? word

end Toml
end Showtime
