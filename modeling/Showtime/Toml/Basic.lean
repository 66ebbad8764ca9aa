/-
# Settings documents: tables and values

A document is a table of keys and values.  Tables come from four sources, and
the source decides what may still be added to a table:

| source | a header may name it | a dotted key may add to it |
| --- | --- | --- |
| `written` by its own header | no | no |
| `implied` by a longer header | yes | only to reach further down |
| `dotted` by a key with dots | no | yes |
| `braces` on one line | no | no |

`descend` walks down a path of keys under these rules.
-/

namespace Showtime
namespace Toml

/-- What brought a table into being. -/
inductive Origin where
  | written
  | implied
  | dotted
  | braces
deriving DecidableEq, Repr

/-- A value of a document.  Numbers that are no integers, and dates and times,
are kept as written: no setting is one. -/
inductive Value where
  | int (n : Int)
  | float (literal : String)
  | bool (b : Bool)
  | str (s : String)
  | time (literal : String)
  | array (items : List Value)
  | table (origin : Origin) (entries : List (String × Value))
  /-- The tables of the headers in double brackets, latest first. -/
  | tables (list : List (List (String × Value)))
deriving Repr

/-- The keys and values of a table. -/
abbrev Entries := List (String × Value)

/-- The value of a key. -/
def get? (key : String) (entries : Entries) : Option Value :=
  (entries.find? (·.1 == key)).map (·.2)

/-- Sets the value of a key, in its old place if it has one. -/
def put (key : String) (value : Value) : Entries → Entries
  | [] => [(key, value)]
  | (k, old) :: rest => if k = key then (key, value) :: rest else (k, old) :: put key value rest

/-- The walk down a path may go through a table. -/
def passable (dotted : Bool) : Origin → Bool
  | .written => !dotted
  | .implied => true
  | .dotted => true
  | .braces => false

/-- Changes the table at the end of a path, making the tables on the way that are
missing.  `dotted` tells a path of a dotted key from one of a header. -/
def descend (dotted : Bool) (change : Origin → Entries → Option Entries) :
    List String → Origin → Entries → Option Entries
  | [], origin, entries => change origin entries
  | key :: path, _, entries =>
    match get? key entries with
    | none => do
      let origin := if dotted then .dotted else .implied
      return put key (.table origin (← descend dotted change path origin [])) entries
    | some (.table origin inner) =>
      if passable dotted origin then do
        return put key (.table origin (← descend dotted change path origin inner)) entries
      else none
    | some (.tables (last :: before)) => do
      return put key (.tables ((← descend dotted change path .written last) :: before)) entries
    | some _ => none

/-- Adds a key with dots and its value to a table. -/
def insertKey (path : List String) (key : String) (value : Value) (entries : Entries) :
    Option Entries :=
  descend true (fun origin entries =>
    if (origin == .dotted) == path.isEmpty || (get? key entries).isSome then none
    else some (put key value entries)) path .written entries

/-- A key with dots and its value, as one line of a document gives them. -/
structure Setting where
  path : List String
  key : String
  value : Value

/-- Adds settings to a table in order. -/
def insertAll (settings : List Setting) (entries : Entries) : Option Entries :=
  settings.foldlM (fun entries s => insertKey s.path s.key s.value entries) entries

/-- A header with the settings under it. -/
structure Section where
  path : List String
  key : String
  /-- The header is in double brackets. -/
  repeated : Bool
  settings : List Setting

/-- Adds a section to a document. -/
def Section.addTo (s : Section) (document : Entries) : Option Entries :=
  descend false (fun _ entries =>
    match s.repeated, get? s.key entries with
    | false, none => do
      return put s.key (.table .written (← insertAll s.settings [])) entries
    | false, some (.table .implied inner) => do
      return put s.key (.table .written (← insertAll s.settings inner)) entries
    | true, none => do
      return put s.key (.tables [← insertAll s.settings []]) entries
    | true, some (.tables list) => do
      return put s.key (.tables ((← insertAll s.settings []) :: list)) entries
    | _, some _ => none) s.path .written document

end Toml
end Showtime
