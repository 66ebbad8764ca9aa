/-
# Quoted text

How a string or a character is shown inside a message or a listing: between
quotes, with escapes.

| character | shown as |
| --- | --- |
| NUL, tab, carriage return, line feed | `\0`, `\t`, `\r`, `\n` |
| backslash | `\\` |
| double quote, in a string | `\"` |
| single quote, in a character | `\'` |
| not printable | backslash, `u`, and the hexadecimal code point in braces |
| any other | itself |
-/

import Showtime.Text.Printable

namespace Showtime
namespace Text

/-- The hexadecimal escape of a character: lower case digits, no padding. -/
def escapeHex (c : Char) : List Char :=
  '\\' :: 'u' :: '\x7b' :: Nat.toDigits 16 c.toNat ++ ['\x7d']

/-- How `c` is shown between two `quote` characters. -/
def escapeChar (quote c : Char) : List Char :=
  match c with
  | '\x00' => ['\\', '0']
  | '\t' => ['\\', 't']
  | '\r' => ['\\', 'r']
  | '\n' => ['\\', 'n']
  | '\\' => ['\\', '\\']
  | c =>
    if c = quote then ['\\', c]
    else if isPrintable c then [c]
    else escapeHex c

/-- A list of characters between double quotes. -/
def quoteChars (cs : List Char) : List Char :=
  '"' :: cs.flatMap (escapeChar '"') ++ ['"']

/-- A string between double quotes. -/
def quote (s : String) : String :=
  String.ofList (quoteChars s.toList)

/-- A character between single quotes. -/
def quoteChar (c : Char) : String :=
  String.ofList ('\'' :: escapeChar '\'' c ++ ['\''])

example : quote "a\"b\\\t" = "\"a\\\"b\\\\\\t\"" := by decide
example : quoteChar '\'' = "'\\''" := by decide

end Text
end Showtime
