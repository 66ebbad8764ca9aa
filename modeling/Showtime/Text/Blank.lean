/-
# White space of text

The characters with the Unicode property `White_Space`, and trimming by them.
This is the wide class: it holds the no-break space and the vertical tab, which
separate nothing in a source text (there only `Showtime.Lexer.isBlank` counts).
It decides how a piece of source is shortened before it is quoted in a message.
-/

namespace Showtime
namespace Text

/-- The code points of `White_Space`: two ranges and nine single characters. -/
def isSpace (c : Char) : Bool :=
  let n := c.toNat
  (0x09 ≤ n && n ≤ 0x0D) || n == 0x20 || n == 0x85 || n == 0xA0 || n == 0x1680 ||
    (0x2000 ≤ n && n ≤ 0x200A) || n == 0x2028 || n == 0x2029 || n == 0x202F ||
    n == 0x205F || n == 0x3000

/-- Drops white space at the end. -/
def trimEnd (cs : List Char) : List Char :=
  (cs.reverse.dropWhile isSpace).reverse

/-- Drops white space at both ends. -/
def trim (cs : List Char) : List Char :=
  trimEnd (cs.dropWhile isSpace)

/-- Trimming takes white space off the two ends, and nothing else. -/
theorem exists_trim (cs : List Char) :
    ∃ lead trail, cs = lead ++ (trim cs ++ trail) ∧ (∀ c ∈ lead, isSpace c = true) ∧
      ∀ c ∈ trail, isSpace c = true := by
  let middle := cs.dropWhile isSpace
  refine ⟨cs.takeWhile isSpace, (middle.reverse.takeWhile isSpace).reverse, ?_,
    List.all_eq_true.1 List.all_takeWhile, ?_⟩
  · have hmiddle : middle = trim cs ++ (middle.reverse.takeWhile isSpace).reverse := by
      rw [trim, trimEnd, ← List.reverse_append, List.takeWhile_append_dropWhile,
        List.reverse_reverse]
    rw [← hmiddle, List.takeWhile_append_dropWhile]
  · intro c hc
    exact List.all_eq_true.1 List.all_takeWhile c (List.mem_reverse.1 hc)

/-- White space behind a text does not change what is left of it. -/
theorem trim_append {cs ds : List Char} (hds : ∀ c ∈ ds, isSpace c = true) :
    trim (cs ++ ds) = trim cs := by
  have hend (xs : List Char) : trimEnd (xs ++ ds) = trimEnd xs := by
    have hreverse : ∀ c ∈ ds.reverse, isSpace c = true := fun c hc => hds c (List.mem_reverse.1 hc)
    rw [trimEnd, trimEnd, List.reverse_append, List.dropWhile_append_of_pos hreverse]
  rw [trim, trim, List.dropWhile_append]
  split
  · next hempty =>
    have hall : ds.dropWhile isSpace = [] := by
      rw [← List.append_nil ds, List.dropWhile_append_of_pos hds]
      rfl
    rw [List.isEmpty_iff.1 hempty, hall]
  · exact hend _

end Text
end Showtime
