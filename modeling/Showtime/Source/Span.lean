/-
# Places in a source text

A span is a range of bytes with the line and column of its start.  Offsets,
columns and lengths count bytes of UTF-8; lines and columns count from 1.

`Span.locate` finds line and column by looking at the text before the start;
`Span.slice` gives the text of a span, when both ends lie between characters.
-/

namespace Showtime

/-- A range of bytes of a source text, with the line and column of its start. -/
structure Span where
  start : Nat
  stop : Nat
  line : Nat
  column : Nat
deriving DecidableEq, Repr, Inhabited

namespace Span

/-- The bytes of a text. -/
def bytesOf (cs : List Char) : List UInt8 :=
  cs.flatMap String.utf8EncodeChar

/-- The byte that ends a line. -/
def newlineByte : UInt8 := 10

/-- The span of `start` to `stop` in `source`, both cut to the text: `start` to
its length, `stop` to the range from `start` to its length. -/
def locate (source : String) (start stop : Nat) : Span :=
  let bytes := bytesOf source.toList
  let start := min start bytes.length
  let before := bytes.take start
  { start
    stop := max start (min stop bytes.length)
    line := before.count newlineByte + 1
    column := (before.reverse.takeWhile (· != newlineByte)).length + 1 }

/-- What remains after the first `n` bytes, if they end between characters. -/
def dropBytes : Nat → List Char → Option (List Char)
  | 0, cs => some cs
  | _ + 1, [] => none
  | n + 1, c :: cs => if c.utf8Size ≤ n + 1 then dropBytes (n + 1 - c.utf8Size) cs else none

/-- The first `n` bytes, if they end between characters. -/
def takeBytes : Nat → List Char → Option (List Char)
  | 0, _ => some []
  | _ + 1, [] => none
  | n + 1, c :: cs =>
    if c.utf8Size ≤ n + 1 then (takeBytes (n + 1 - c.utf8Size) cs).map (c :: ·) else none

/-- The text that a span covers, if both its ends lie between characters of
`source` and in order. -/
def slice (s : Span) (source : String) : Option String := do
  let rest ← dropBytes s.start source.toList
  if s.start ≤ s.stop then
    let text ← takeBytes (s.stop - s.start) rest
    return String.ofList text
  else
    none

/-- Where the span starts, for a reader. -/
def render (s : Span) : String :=
  s!"line {s.line}, column {s.column}"

end Span
end Showtime
