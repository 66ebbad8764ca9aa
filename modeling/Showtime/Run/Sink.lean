/-
# Where output goes

A run writes to two sinks: its output, and a report of the error that ended it.
A sink takes bytes and may fail, with the reason in words.  `Buffer` is a sink
in memory, with a bound on what it keeps if that is wanted.
-/

namespace Showtime

/-- Something that takes bytes.  Both operations give the reason of a failure,
if they failed, and the sink afterwards. -/
class Sink (σ : Type) where
  write : σ → ByteArray → Option String × σ
  flush : σ → Option String × σ

/-- A sink in memory. -/
structure Buffer where
  contents : ByteArray
  /-- How many bytes it keeps in all. -/
  limit : Option Nat
  /-- Why a flush fails, if it does. -/
  flushError : Option String

namespace Buffer

/-- A sink that never fails. -/
def unbounded : Buffer :=
  { contents := .empty, limit := none, flushError := none }

/-- Why a write fails. -/
def fullMessage : String := "sink full"

/-- Keeps what fits, and fails if that is not all. -/
def write (b : Buffer) (bytes : ByteArray) : Option String × Buffer :=
  match b with
  | { contents, limit := none, flushError } =>
    (none, { contents := contents ++ bytes, limit := none, flushError })
  | { contents, limit := some limit, flushError } =>
    let room := limit - contents.size
    if bytes.size ≤ room then
      (none, { contents := contents ++ bytes, limit := some limit, flushError })
    else
      (some fullMessage,
        { contents := contents ++ bytes.extract 0 room, limit := some limit, flushError })

/-- Changes nothing. -/
def flush (b : Buffer) : Option String × Buffer :=
  (b.flushError, b)

/-- A buffer as a sink: it keeps what fits, and flushing changes nothing. -/
instance : Sink Buffer where
  write := write
  flush := flush

end Buffer
end Showtime
