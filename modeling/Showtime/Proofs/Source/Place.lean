/-
# Places and bytes of a text

A place is the bytes before it, its line, and the bytes before that line.
`Place.after` finds the place behind a text character by character, counting up
at each line end.  `Span.locate` finds line and column by looking at the bytes
before the place.  The two agree (`Span.locate_after`), because the byte of a
line end is in no other character (`Span.newlineByte_not_mem`).
-/

import Mathlib.Data.List.Induction
import Showtime.Token.Lexer

namespace Showtime

/-- A place in a text: the bytes before it, its line, and the bytes before that
line. -/
structure Place where
  offset : Nat
  line : Nat
  lineStart : Nat
deriving DecidableEq, Repr

namespace Place

open Lexer (byteLength)

/-- The place at the start of a text. -/
def start : Place :=
  { offset := 0, line := 1, lineStart := 0 }

/-- The place behind a character. -/
def next (p : Place) (c : Char) : Place :=
  if c = '\n' then
    { offset := p.offset + 1, line := p.line + 1, lineStart := p.offset + 1 }
  else
    { p with offset := p.offset + c.utf8Size }

/-- The place behind a text. -/
def after (p : Place) (cs : List Char) : Place :=
  cs.foldl next p

/-- Without a character the place stays. -/
@[simp]
theorem after_nil (p : Place) : p.after [] = p := rfl

/-- A text is passed from its first character on. -/
@[simp]
theorem after_cons (p : Place) (c : Char) (cs : List Char) :
    p.after (c :: cs) = (p.next c).after cs := rfl

/-- Texts are passed one after the other. -/
theorem after_append (p : Place) (cs ds : List Char) :
    p.after (cs ++ ds) = (p.after cs).after ds :=
  List.foldl_append

/-- A character takes as many bytes as it is encoded with. -/
theorem offset_next (p : Place) (c : Char) : (p.next c).offset = p.offset + c.utf8Size := by
  unfold next
  split
  · next hline =>
    subst hline
    rfl
  · rfl

/-- A text takes as many bytes as its characters. -/
theorem offset_after (p : Place) (cs : List Char) :
    (p.after cs).offset = p.offset + byteLength cs := by
  induction cs generalizing p with
  | nil => rfl
  | cons c cs ih =>
    rw [after_cons, ih, offset_next, Lexer.byteLength_cons]
    omega

/-- The line grows with each line end. -/
theorem line_after (p : Place) (cs : List Char) : (p.after cs).line = p.line + cs.count '\n' := by
  induction cs generalizing p with
  | nil => rfl
  | cons c cs ih =>
    rw [after_cons, ih, List.count_cons]
    by_cases hline : c = '\n'
    · simp only [next, hline, if_true, beq_self_eq_true]
      omega
    · simp [next, hline]

/-- On one line only the offset grows. -/
theorem after_of_not_mem {p : Place} {cs : List Char} (h : '\n' ∉ cs) :
    p.after cs = { p with offset := p.offset + byteLength cs } := by
  induction cs generalizing p with
  | nil => rfl
  | cons c cs ih =>
    obtain ⟨hc, hcs⟩ := List.ne_and_not_mem_of_not_mem_cons h
    rw [after_cons, ih hcs, next, if_neg (Ne.symm hc), Lexer.byteLength_cons]
    simp only [Nat.add_assoc]

/-- A line starts no later than the place on it. -/
theorem lineStart_le_offset (cs : List Char) : (start.after cs).lineStart ≤ (start.after cs).offset := by
  induction cs using List.reverseRecOn with
  | nil => exact Nat.le_refl 0
  | append_singleton cs c ih =>
    rw [after_append, after_cons, after_nil, next]
    split
    · exact Nat.le_refl _
    · exact Nat.le_add_right_of_le ih

end Place

/-! ### Bytes of a text -/

namespace Span

open Lexer (byteLength)

/-- Texts are encoded one after the other. -/
theorem bytesOf_append (cs ds : List Char) : bytesOf (cs ++ ds) = bytesOf cs ++ bytesOf ds :=
  List.flatMap_append

/-- A text is encoded with as many bytes as are counted. -/
theorem length_bytesOf (cs : List Char) : (bytesOf cs).length = byteLength cs := by
  induction cs with
  | nil => rfl
  | cons c cs ih =>
    have hcons : bytesOf (c :: cs) = String.utf8EncodeChar c ++ bytesOf cs := List.flatMap_cons
    rw [hcons, List.length_append, String.length_utf8EncodeChar, ih, Lexer.byteLength_cons]

/-- The bytes of a text are as many as its size. -/
theorem byteLength_toList (s : String) : byteLength s.toList = s.utf8ByteSize := by
  rw [String.utf8ByteSize, ← String.utf8Encode_toList, List.utf8Encode, List.size_toByteArray]
  exact (length_bytesOf s.toList).symm

/-- A line end is one byte. -/
theorem utf8EncodeChar_newline : String.utf8EncodeChar '\n' = [newlineByte] := by decide

/-- A byte below 256 is what it is. -/
theorem ofNat_ne_newlineByte {n : Nat} (hlt : n < 256) (hne : n ≠ 10) :
    UInt8.ofNat n ≠ newlineByte := by
  intro h
  have hval := congrArg UInt8.toNat h
  rw [UInt8.toNat_ofNat_of_lt' hlt] at hval
  exact hne hval

/-- The byte of a line end is in no other character. -/
theorem newlineByte_not_mem {c : Char} (hc : c ≠ '\n') :
    newlineByte ∉ String.utf8EncodeChar c := by
  have hval : c.val.toNat ≠ 10 := fun h => hc (Char.ext (UInt32.toNat_inj.1 h))
  unfold String.utf8EncodeChar
  simp only
  -- a character of one byte is that byte; all bytes of a longer one are above 127
  split
  · simpa using (ofNat_ne_newlineByte (by omega) hval).symm
  · have above {n : Nat} (hlo : 128 ≤ n) (hhi : n < 256) : newlineByte ≠ UInt8.ofNat n :=
      (ofNat_ne_newlineByte hhi (by omega)).symm
    split
    · simp only [List.mem_cons, List.not_mem_nil, or_false, not_or]
      exact ⟨above (by omega) (by omega), above (by omega) (by omega)⟩
    · split
      · simp only [List.mem_cons, List.not_mem_nil, or_false, not_or]
        exact ⟨above (by omega) (by omega), above (by omega) (by omega),
          above (by omega) (by omega)⟩
      · simp only [List.mem_cons, List.not_mem_nil, or_false, not_or]
        exact ⟨above (by omega) (by omega), above (by omega) (by omega),
          above (by omega) (by omega), above (by omega) (by omega)⟩

/-- The line ends among the bytes are those among the characters. -/
theorem count_bytesOf (cs : List Char) : (bytesOf cs).count newlineByte = cs.count '\n' := by
  induction cs with
  | nil => rfl
  | cons c cs ih =>
    have hcons : bytesOf (c :: cs) = String.utf8EncodeChar c ++ bytesOf cs := List.flatMap_cons
    rw [hcons, List.count_append, ih, List.count_cons]
    by_cases hline : c = '\n'
    · subst hline
      rw [utf8EncodeChar_newline, List.count_singleton_self, beq_self_eq_true, if_pos rfl]
      omega
    · rw [List.count_eq_zero_of_not_mem (newlineByte_not_mem hline)]
      simp [hline]

/-- The bytes since the last line end are those since the start of the line. -/
theorem length_takeWhile_bytesOf (cs : List Char) :
    ((bytesOf cs).reverse.takeWhile (· != newlineByte)).length =
      (Place.start.after cs).offset - (Place.start.after cs).lineStart := by
  induction cs using List.reverseRecOn with
  | nil => rfl
  | append_singleton cs c ih =>
    have hbytes : bytesOf (cs ++ [c]) = bytesOf cs ++ String.utf8EncodeChar c := by
      rw [bytesOf_append, bytesOf, bytesOf, List.flatMap_singleton]
    have hstart := Place.lineStart_le_offset cs
    rw [hbytes, List.reverse_append, Place.after_append, Place.after_cons, Place.after_nil]
    by_cases hline : c = '\n'
    · subst hline
      rw [utf8EncodeChar_newline, Place.next, if_pos rfl]
      simp
    · have hchar : ∀ b ∈ (String.utf8EncodeChar c).reverse, (b != newlineByte) = true := by
        intro b hb
        rw [List.mem_reverse] at hb
        simpa using ne_of_mem_of_not_mem hb (newlineByte_not_mem hline)
      rw [List.takeWhile_append_of_pos hchar, List.length_append, List.length_reverse,
        String.length_utf8EncodeChar, ih, Place.next, if_neg hline]
      simp only
      omega

/-- The empty span right behind a span with no line end in it. -/
def behind (s : Span) : Span :=
  { s with start := s.stop, column := s.column + (s.stop - s.start) }

/-- **A second look finds the place that was kept.** -/
theorem locate_after {source : String} {before rest : List Char}
    (hsource : source.toList = before ++ rest) {size : Nat} (hsize : size ≤ byteLength rest) :
    let p := Place.start.after before
    locate source p.offset (p.offset + size) =
      { start := p.offset, stop := p.offset + size, line := p.line,
        column := p.offset - p.lineStart + 1 } := by
  have hoffset : (Place.start.after before).offset = (bytesOf before).length := by
    rw [Place.offset_after, length_bytesOf, Place.start, Nat.zero_add]
  have hbytes : bytesOf source.toList = bytesOf before ++ bytesOf rest := by
    rw [hsource, bytesOf_append]
  have hline : (Place.start.after before).line = (bytesOf before).count newlineByte + 1 := by
    rw [Place.line_after, count_bytesOf, Place.start, Nat.add_comm]
  have hcolumn := length_takeWhile_bytesOf before
  have hlength : (bytesOf rest).length = byteLength rest := length_bytesOf rest
  simp only [locate, hbytes, List.length_append]
  rw [Nat.min_eq_left (by omega), hoffset, List.take_left, hline, hcolumn, hoffset,
    Nat.min_eq_left (by omega), Nat.max_eq_right (by omega)]

end Span
end Showtime
