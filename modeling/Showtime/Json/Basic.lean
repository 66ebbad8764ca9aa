/-
# JSON values

The values in which programs are stored and exchanged.  Integers have no bound
of their own; a number with a fraction or an exponent is kept as it is written,
since no part of a program is one.  The fields of an object keep their order.
-/

namespace Showtime

/-- A JSON value. -/
inductive Json where
  | null
  | bool (b : Bool)
  | int (n : Int)
  /-- A number with a fraction or an exponent, as written. -/
  | real (literal : String)
  | str (s : String)
  | arr (items : List Json)
  | obj (fields : List (String × Json))
deriving Repr, Inhabited

namespace Json

/-- The value of the first field of this name. -/
def field? (name : String) : Json → Option Json
  | obj fields => (fields.find? (·.1 == name)).map (·.2)
  | _ => none

/-- The string of a string value. -/
def str? : Json → Option String
  | str s => some s
  | _ => none

/-- The integer of an integer value. -/
def int? : Json → Option Int
  | int n => some n
  | _ => none

/-- The items of an array. -/
def arr? : Json → Option (List Json)
  | arr items => some items
  | _ => none

end Json
end Showtime
