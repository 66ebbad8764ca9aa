/-
# Settings

What can be set for a run: how many calls may be active, and what is logged.
Settings come from a document with two tables.

```
[run]
max_call_depth = 10000

[log]
filter = "info"
```

All of it may be left out, and nothing else may be there.  A table may also be
given as the array of its values in order; there, what is missing has its
default and what is too much is dropped.
-/

import Showtime.CompileError
import Showtime.Run.Interpreter
import Showtime.Toml.Reader

namespace Showtime

/-- What can be set for a run. -/
structure Settings where
  /-- How many calls may be active. -/
  maxCallDepth : Nat := defaultCallDepth
  /-- What is logged. -/
  filter : Option String := none
deriving DecidableEq, Repr

namespace Settings

/-- A number of calls. -/
def count? : Toml.Value → Option Nat
  | .int n => if 0 ≤ n then some n.toNat else none
  | _ => none

/-- A text. -/
def text? : Toml.Value → Option String
  | .str s => some s
  | _ => none

/-- The only value of a table that may have one key: `none` inside if it is not
set. -/
def only? (key : String) : Toml.Value → Option (Option Toml.Value)
  | .table _ [] => some none
  | .table _ [(k, value)] => if k = key then some (some value) else none
  | .array [] => some none
  | .array (value :: _) => some (some value)
  | .tables list => list.getLast?.map fun entries => some (.table .written entries)
  | _ => none

/-- Takes in the table for runs. -/
def withRun (s : Settings) (value : Toml.Value) : Option Settings := do
  match ← only? "max_call_depth" value with
  | none => return s
  | some value => return { s with maxCallDepth := ← count? value }

/-- Takes in the table for logging. -/
def withLog (s : Settings) (value : Toml.Value) : Option Settings := do
  match ← only? "filter" value with
  | none => return s
  | some value => return { s with filter := some (← text? value) }

/-- Takes in one key of a document. -/
def withEntry (s : Settings) : String × Toml.Value → Option Settings
  | ("run", value) => s.withRun value
  | ("log", value) => s.withLog value
  | _ => none

/-- The settings of a document. -/
def parse? (text : String) : Option Settings := do
  (← Toml.parse? text).foldlM withEntry {}

end Settings
end Showtime
