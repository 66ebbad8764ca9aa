/-
# Digits

Reading single digits and fixed numbers of hexadecimal digits, as escapes in
strings use them.
-/

namespace Showtime
namespace Text

/-- The value of a digit, letters counting on from ten. -/
def digit? (c : Char) : Option Nat :=
  if '0' ≤ c ∧ c ≤ '9' then some (c.toNat - '0'.toNat)
  else if 'a' ≤ c ∧ c ≤ 'z' then some (c.toNat - 'a'.toNat + 10)
  else if 'A' ≤ c ∧ c ≤ 'Z' then some (c.toNat - 'A'.toNat + 10)
  else none

/-- The value of a digit in a base. -/
def digitIn? (base : Nat) (c : Char) : Option Nat :=
  (digit? c).filter (· < base)

/-- The number with these digits in a base, the value so far being `acc`. -/
def number? (base : Nat) : Nat → List Char → Option Nat
  | acc, [] => some acc
  | acc, c :: cs =>
    match digitIn? base c with
    | some d => number? base (acc * base + d) cs
    | none => none

/-- Reads exactly `count` hexadecimal digits. -/
def hexDigits? (count : Nat) (cs : List Char) : Option (Nat × List Char) :=
  if cs.length < count then none
  else (number? 16 0 (cs.take count)).map fun n => (n, cs.drop count)

/-- The character with this code point, if it is one. -/
def charAt? (n : Nat) : Option Char :=
  if n.isValidChar then some (Char.ofNat n) else none

end Text
end Showtime
