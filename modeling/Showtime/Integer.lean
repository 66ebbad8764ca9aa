/-
# Integers

The integers of the language have 64 bits and a sign.  `ofInt?` gives the
integer of a number that fits, and nothing for one that does not.
-/

namespace Showtime
namespace Integer

/-- The integer that stands for a truth value. -/
def ofBool (b : Bool) : Int64 := if b then 1 else 0

/-- The integer of a number, if it fits. -/
def ofInt? (n : Int) : Option Int64 :=
  if Int64.minValue.toInt ≤ n ∧ n ≤ Int64.maxValue.toInt then some (Int64.ofInt n) else none

/-- Every machine integer is found again from its value. -/
@[simp]
theorem ofInt?_toInt (n : Int64) : ofInt? n.toInt = some n := by
  rw [ofInt?, if_pos ⟨n.minValue_le_toInt, n.toInt_le⟩, Int64.ofInt_toInt]

/-- The integer of a number has its value. -/
theorem toInt_of_ofInt? {n : Int} {m : Int64} (h : ofInt? n = some m) : m.toInt = n := by
  simp only [ofInt?] at h
  split at h
  · next bounds =>
    obtain rfl := Option.some.inj h
    rw [Int64.toInt_minValue, Int64.toInt_maxValue] at bounds
    exact Int64.toInt_ofInt_of_le bounds.1 (by omega)
  · simp at h

end Integer
end Showtime
