/-
# Lines and columns as coordinates

`Span.locate` gives an offset in a text its line and column.  These are coordinates:

| coordinate | counts | found by |
| --- | --- | --- |
| line | the line ends before the offset | a count of all of them |
| column | the bytes since the last of them | a search for the last |

The two fit together, because the last line end is the last one counted: the line of this
number starts where the column counts from (`Span.LastLine.lineStart_eq`).  So line and
column lead back to the offset (`Span.offsetAt_locate`), and by line and then by column
they have the order of the offsets (`Span.coordinates_lt`).

Some steps of this have a result only within limits: bounds that are in order, bytes that
a text has, a difference of which the second number is not larger.  `Span.locate?` takes
these steps as they are.  It always has a result (`Span.locate?_eq`).
-/

import Mathlib.Data.List.DropRight
import Mathlib.Data.Prod.Lex
import Showtime.Proofs.Source.Place

namespace Showtime
namespace Span

/-! ### The last line -/

/-- A text of bytes in two parts, of which `current` is its last line. -/
structure LastLine (before earlier current : List UInt8) : Prop where
  append : before = earlier ++ current
  not_mem : newlineByte ∉ current
  starts : earlier = [] ∨ earlier.getLast? = some newlineByte

/-- The bytes that are counted for a column are the last line. -/
theorem exists_lastLine (before : List UInt8) :
    ∃ earlier current, LastLine before earlier current ∧
      (before.reverse.takeWhile (· != newlineByte)).length = current.length := by
  refine ⟨before.rdropWhile (· != newlineByte), before.rtakeWhile (· != newlineByte),
    ⟨List.rdropWhile_append_rtakeWhile.symm, ?_, ?_⟩, ?_⟩
  · intro hmem
    simpa using List.mem_rtakeWhile_imp hmem
  · by_cases hnil : before.rdropWhile (· != newlineByte) = []
    · exact .inl hnil
    · have hlast := List.rdropWhile_last_not (· != newlineByte) before hnil
      rw [List.getLast?_eq_some_getLast hnil]
      exact .inr (by simpa using hlast)
  · rw [List.rtakeWhile, List.length_reverse]

namespace LastLine

variable {before earlier current : List UInt8}

/-- All line ends are before the last line. -/
theorem count_eq (h : LastLine before earlier current) :
    before.count newlineByte = earlier.count newlineByte := by
  rw [h.append, List.count_append, List.count_eq_zero_of_not_mem h.not_mem, Nat.add_zero]

/-- The bytes are those before the last line and those of it. -/
theorem length_eq (h : LastLine before earlier current) :
    before.length = earlier.length + current.length := by
  rw [h.append, List.length_append]

end LastLine

/-! ### From coordinates to offsets -/

/-- The number of bytes up to and with the `n`-th line end. -/
def lineStart : Nat → List UInt8 → Nat
  | 0, _ => 0
  | _ + 1, [] => 0
  | n + 1, b :: bytes =>
    if b = newlineByte then lineStart n bytes + 1 else lineStart (n + 1) bytes + 1

/-- The offset with these coordinates. -/
def offsetAt (source : String) (line column : Nat) : Nat :=
  lineStart (line - 1) (bytesOf source.toList) + (column - 1)

/-- The bytes up to a line end are counted by the line ends in them. -/
theorem lineStart_append {earlier : List UInt8}
    (h : earlier = [] ∨ earlier.getLast? = some newlineByte) (rest : List UInt8) :
    lineStart (earlier.count newlineByte) (earlier ++ rest) = earlier.length := by
  induction earlier with
  | nil => simp [lineStart]
  | cons b bytes ih =>
    have hlast : (b :: bytes).getLast? = some newlineByte := h.resolve_left (by simp)
    by_cases hb : b = newlineByte
    · have hbytes : bytes = [] ∨ bytes.getLast? = some newlineByte := by
        cases bytes with
        | nil => exact .inl rfl
        | cons c cs => exact .inr (by rwa [List.getLast?_cons_cons] at hlast)
      rw [hb, List.count_cons_self, List.cons_append, lineStart, if_pos rfl, ih hbytes,
        List.length_cons]
    · -- the line end is further on, so there is one to count
      have hbytes : bytes.getLast? = some newlineByte := by
        cases bytes with
        | nil => exact absurd (Option.some.inj hlast) hb
        | cons c cs => rwa [List.getLast?_cons_cons] at hlast
      have hcount : 0 < bytes.count newlineByte :=
        List.count_pos_iff.2 (List.mem_of_getLast? hbytes)
      obtain ⟨n, hn⟩ := Nat.exists_eq_add_one.2 hcount
      have hrest := ih (.inr hbytes)
      rw [List.count_cons_of_ne hb, hn, List.cons_append, lineStart, if_neg hb, ← hn, hrest,
        List.length_cons]

/-- The last line starts behind the line ends that are counted. -/
theorem LastLine.lineStart_eq {before earlier current : List UInt8}
    (h : LastLine before earlier current) (rest : List UInt8) :
    lineStart (before.count newlineByte) (before ++ rest) = earlier.length := by
  rw [h.count_eq, h.append, List.append_assoc, lineStart_append h.starts]

/-! ### Spans -/

/-- The bytes of a source are as many as its size. -/
theorem length_source (source : String) :
    (bytesOf source.toList).length = source.utf8ByteSize := by
  rw [length_bytesOf, byteLength_toList]

/-- The bytes before a span. -/
def bytesBefore (s : Span) (source : String) : List UInt8 :=
  (bytesOf source.toList).take s.start

section

variable (source : String) (start stop : Nat)

/-- The start is cut to the size of the source. -/
theorem start_locate : (locate source start stop).start = min start source.utf8ByteSize := by
  rw [← length_source]
  rfl

/-- A span does not stop before it starts. -/
theorem start_le_stop_locate : (locate source start stop).start ≤ (locate source start stop).stop :=
  Nat.le_max_left _ _

/-- A span does not stop behind the source. -/
theorem stop_locate_le : (locate source start stop).stop ≤ source.utf8ByteSize := by
  rw [← length_source]
  exact Nat.max_le.2 ⟨Nat.min_le_right _ _, Nat.min_le_right _ _⟩

/-- Where the given end is within the source and not before the start, it is kept. -/
theorem stop_locate (hstart : (locate source start stop).start ≤ stop)
    (hstop : stop ≤ source.utf8ByteSize) : (locate source start stop).stop = stop := by
  rw [← length_source] at hstop
  have hmin : min stop (bytesOf source.toList).length = stop := Nat.min_eq_left hstop
  exact (congrArg (max _) hmin).trans (Nat.max_eq_right hstart)

/-- Before a span there are as many bytes as its start says. -/
theorem length_bytesBefore :
    ((locate source start stop).bytesBefore source).length = (locate source start stop).start := by
  rw [bytesBefore, List.length_take, length_source, start_locate, Nat.min_assoc, Nat.min_self]

/-- The line is one more than the line ends before the span. -/
theorem line_locate : (locate source start stop).line =
    ((locate source start stop).bytesBefore source).count newlineByte + 1 := rfl

/-- The line is at most one more than the number of bytes. -/
theorem line_locate_le_size : (locate source start stop).line ≤ source.utf8ByteSize + 1 := by
  have hcount : ((locate source start stop).bytesBefore source).count newlineByte ≤ _ :=
    List.count_le_length
  have hstart := start_locate source start stop
  rw [length_bytesBefore] at hcount
  rw [line_locate]
  omega

/-- The column counts the bytes of the last line before the span. -/
theorem exists_lastLine_locate :
    ∃ earlier current,
      LastLine ((locate source start stop).bytesBefore source) earlier current ∧
        (locate source start stop).column = current.length + 1 := by
  obtain ⟨earlier, current, hline, hlength⟩ :=
    exists_lastLine ((locate source start stop).bytesBefore source)
  exact ⟨earlier, current, hline, congrArg (· + 1) hlength⟩

/-- The column is at most one more than the number of bytes. -/
theorem column_locate_le_size : (locate source start stop).column ≤ source.utf8ByteSize + 1 := by
  obtain ⟨earlier, current, hline, hcolumn⟩ := exists_lastLine_locate source start stop
  have hlength := hline.length_eq
  have hstart := start_locate source start stop
  rw [length_bytesBefore] at hlength
  omega

/-- **Line and column lead back to the offset.** -/
theorem offsetAt_locate :
    offsetAt source (locate source start stop).line (locate source start stop).column =
      (locate source start stop).start := by
  obtain ⟨earlier, current, hline, hcolumn⟩ := exists_lastLine_locate source start stop
  have hbytes : bytesOf source.toList =
      (locate source start stop).bytesBefore source ++
        (bytesOf source.toList).drop (locate source start stop).start :=
    (List.take_append_drop _ _).symm
  rw [offsetAt, line_locate, hcolumn, Nat.add_sub_cancel, Nat.add_sub_cancel, hbytes,
    hline.lineStart_eq, ← hline.length_eq, length_bytesBefore]

end

/-! ### The order of the coordinates -/

/-- Line and column of a span, ordered by line and then by column. -/
def coordinates (s : Span) : Nat ×ₗ Nat :=
  toLex (s.line, s.column)

/-- A span that starts later is on the same line or on a later one. -/
theorem line_locate_le {source : String} {a b : Nat} (hab : a ≤ b) (stop stop' : Nat) :
    (locate source a stop).line ≤ (locate source b stop').line := by
  have hstart : (locate source a stop).start ≤ (locate source b stop').start := by
    rw [start_locate, start_locate]
    omega
  have hsublist : ((locate source a stop).bytesBefore source).Sublist
      ((locate source b stop').bytesBefore source) :=
    (List.take_prefix_take_left hstart).sublist
  rw [line_locate, line_locate]
  exact Nat.add_le_add_right (hsublist.count_le _) 1

/-- **The order of the offsets is the order of their coordinates.**  On one line the
columns are in order, because offsets are told by line and column. -/
theorem coordinates_lt {source : String} {a b : Nat} (hab : a < b)
    (hb : b ≤ source.utf8ByteSize) (stop stop' : Nat) :
    (locate source a stop).coordinates < (locate source b stop').coordinates := by
  have hstart : (locate source a stop).start < (locate source b stop').start := by
    rw [start_locate, start_locate]
    omega
  rw [coordinates, coordinates, Prod.Lex.toLex_lt_toLex]
  rcases (line_locate_le hab.le stop stop').lt_or_eq with hline | hline
  · exact .inl hline
  · have hoffset := offsetAt_locate source a stop
    have hoffset' := offsetAt_locate source b stop'
    rw [offsetAt, hline] at hoffset
    rw [offsetAt] at hoffset'
    exact .inr ⟨hline, by omega⟩

/-! ### Steps with limits -/

/-- A number moved into a range, if the bounds of the range are in order. -/
def clamp? (low high n : Nat) : Option Nat :=
  if low ≤ high then some (max low (min n high)) else none

/-- The first `n` bytes, if there are as many. -/
def front? (n : Nat) (bytes : List UInt8) : Option (List UInt8) :=
  if n ≤ bytes.length then some (bytes.take n) else none

/-- The difference of two numbers, if the second is not larger. -/
def minus? (m n : Nat) : Option Nat :=
  if n ≤ m then some (m - n) else none

/-- The place of the last line end. -/
def lastNewline? : List UInt8 → Option Nat
  | [] => none
  | b :: bytes =>
    match lastNewline? bytes with
    | some place => some (place + 1)
    | none => if b = newlineByte then some 0 else none

/-- The span of `start` to `stop`, found in steps with limits: the column is the distance
from the byte behind the last line end. -/
def locate? (source : String) (start stop : Nat) : Option Span := do
  let bytes := bytesOf source.toList
  let start := min start bytes.length
  let stop ← clamp? start bytes.length stop
  let before ← front? start bytes
  let distance ← minus? start ((lastNewline? before).elim 0 (· + 1))
  return { start, stop, line := before.count newlineByte + 1, column := distance + 1 }

/-- Without a line end there is no last one. -/
theorem lastNewline?_eq_none {bytes : List UInt8} (h : newlineByte ∉ bytes) :
    lastNewline? bytes = none := by
  induction bytes with
  | nil => rfl
  | cons b bytes ih =>
    obtain ⟨hb, hbytes⟩ := List.ne_and_not_mem_of_not_mem_cons h
    rw [lastNewline?, ih hbytes]
    exact if_neg hb.symm

/-- The last line end is not in a text that has none. -/
theorem lastNewline?_append {earlier current : List UInt8} (h : newlineByte ∉ current) :
    lastNewline? (earlier ++ current) = lastNewline? earlier := by
  induction earlier with
  | nil => exact lastNewline?_eq_none h
  | cons b bytes ih => rw [List.cons_append, lastNewline?, ih, lastNewline?]

/-- A line end at the end is the last one. -/
theorem lastNewline?_concat (bytes : List UInt8) :
    lastNewline? (bytes ++ [newlineByte]) = some bytes.length := by
  induction bytes with
  | nil => rfl
  | cons b bytes ih => rw [List.cons_append, lastNewline?, ih, List.length_cons]

/-- Behind the last line end the last line starts. -/
theorem LastLine.lastNewline?_eq {before earlier current : List UInt8}
    (h : LastLine before earlier current) :
    (lastNewline? before).elim 0 (· + 1) = earlier.length := by
  rw [h.append, lastNewline?_append h.not_mem]
  rcases h.starts with rfl | hlast
  · rfl
  · obtain ⟨bytes, rfl⟩ := List.getLast?_eq_some_iff.1 hlast
    rw [lastNewline?_concat, Option.elim_some, List.length_append, List.length_singleton]

/-- **The steps stay within their limits.** -/
theorem locate?_eq (source : String) (start stop : Nat) :
    locate? source start stop = some (locate source start stop) := by
  obtain ⟨earlier, current, hline, hcolumn⟩ := exists_lastLine_locate source start stop
  have hstart : (locate source start stop).start ≤ (bytesOf source.toList).length :=
    Nat.min_le_right _ _
  have hclamp : clamp? (locate source start stop).start (bytesOf source.toList).length stop =
      some (locate source start stop).stop := if_pos hstart
  have hfront : front? (locate source start stop).start (bytesOf source.toList) =
      some ((locate source start stop).bytesBefore source) := if_pos hstart
  have hlength := hline.length_eq
  rw [length_bytesBefore] at hlength
  have hminus : minus? (locate source start stop).start earlier.length = some current.length := by
    rw [minus?, if_pos (by omega), hlength, Nat.add_sub_cancel_left]
  calc locate? source start stop
      = (clamp? (locate source start stop).start (bytesOf source.toList).length stop >>= fun stop' =>
          front? (locate source start stop).start (bytesOf source.toList) >>= fun before =>
          minus? (locate source start stop).start ((lastNewline? before).elim 0 (· + 1)) >>=
          fun distance => some {
            start := (locate source start stop).start, stop := stop'
            line := before.count newlineByte + 1, column := distance + 1 }) := rfl
    _ = some { locate source start stop with column := current.length + 1 } := by
        simp only [hclamp, hfront, hline.lastNewline?_eq, hminus, Option.bind_eq_bind,
          Option.bind_some, ← line_locate]
    _ = some (locate source start stop) := by rw [← hcolumn]

/-- **Line and column are coordinates of a text.**  Finding them never fails, and no number
is more than one above the size of the text.  The bounds are cut to the text.  The line
counts the line ends before the start, the column the bytes since the last of them.  Both
together tell the start, and by line and then by column they are ordered as the offsets
are. -/
theorem locate_gives_ordered_coordinates (source : String) :
    (∀ start stop : Nat,
      let s := locate source start stop
      (locate? source start stop = some s ∧
        s.line ≤ source.utf8ByteSize + 1 ∧ s.column ≤ source.utf8ByteSize + 1) ∧
      (s.start = min start source.utf8ByteSize ∧
        s.start ≤ s.stop ∧ s.stop ≤ source.utf8ByteSize ∧
        (s.start ≤ stop → stop ≤ source.utf8ByteSize → s.stop = stop)) ∧
      s.line = (s.bytesBefore source).count newlineByte + 1 ∧
      (∃ earlier current, LastLine (s.bytesBefore source) earlier current ∧
        s.column = current.length + 1) ∧
      offsetAt source s.line s.column = s.start) ∧
    ∀ a b stop stop' : Nat, a < b → b ≤ source.utf8ByteSize →
      (locate source a stop).coordinates < (locate source b stop').coordinates := by
  refine ⟨fun start stop => ?_, fun a b stop stop' hab hb => coordinates_lt hab hb stop stop'⟩
  refine ⟨⟨locate?_eq source start stop, line_locate_le_size source start stop,
    column_locate_le_size source start stop⟩, ⟨start_locate source start stop,
    start_le_stop_locate source start stop, stop_locate_le source start stop,
    stop_locate source start stop⟩, ?_⟩
  exact ⟨line_locate source start stop, exists_lastLine_locate source start stop,
    offsetAt_locate source start stop⟩

/-- The middle of the first character comes before the empty line, and that before the
line behind it. -/
theorem emptyLine_between :
    1 < 3 ∧ 3 < 4 ∧ 4 ≤ "é\n\nx".utf8ByteSize ∧
      (locate "é\n\nx" 1 9).coordinates < (locate "é\n\nx" 3 3).coordinates ∧
      (locate "é\n\nx" 3 3).coordinates < (locate "é\n\nx" 4 0).coordinates := by
  have hsize : 4 ≤ "é\n\nx".utf8ByteSize := by decide
  exact ⟨by decide, by decide, hsize,
    (locate_gives_ordered_coordinates _).2 1 3 9 3 (by decide) (by omega),
    (locate_gives_ordered_coordinates _).2 3 4 3 0 (by decide) hsize⟩

end Span
end Showtime
