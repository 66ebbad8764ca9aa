/-
# One call of the lexer

A call passes separators and then finds the end of the text
(`scan_of_separators`) or takes one cut (`scan_of_gap`); `separators_or_gap` says
that there is no third way.  Where the lexer is afterwards is the place behind
what it has passed: separators because the line ends among them are counted
(`skip_pass`), a lexeme because there is none in it (`newline_not_mem_lexeme`).

A lexer that started at the beginning of a source has therefore always `Reached`
a place of it (`Reached.scan`), and the spans that it reports are those that a
second look at the source finds (`span_of_mem_scans`).
-/

import Showtime.Proofs.Source.Place
import Showtime.Proofs.Token.Spelling

namespace Showtime
namespace Lexer

/-! ### Separators -/

/-- Separates tokens: a blank or a line end. -/
def isSeparator (c : Char) : Bool :=
  c == '\n' || isBlank c

/-- A character that separates nothing is no line end and no blank. -/
theorem isSeparator_eq_false_iff {c : Char} :
    isSeparator c = false ↔ c ≠ '\n' ∧ isBlank c = false := by
  simp [isSeparator]

/-- The four blanks of a line. -/
theorem isBlank_iff {c : Char} :
    isBlank c = true ↔ c = ' ' ∨ c = '\t' ∨ c = '\r' ∨ c = '\x0c' := by
  simp [isBlank, or_assoc]

/-- A blank is one byte. -/
theorem utf8Size_of_isBlank {c : Char} (h : isBlank c = true) : c.utf8Size = 1 := by
  rcases isBlank_iff.1 h with rfl | rfl | rfl | rfl <;> rfl

/-- A text consists of separators, or something else comes behind them. -/
theorem separators_or_gap (cs : List Char) :
    (∀ c ∈ cs, isSeparator c = true) ∨
      ∃ gap c rest, (∀ d ∈ gap, isSeparator d = true) ∧ isSeparator c = false ∧
        cs = gap ++ c :: rest := by
  induction cs with
  | nil => exact .inl fun _ h => absurd h List.not_mem_nil
  | cons d cs ih =>
    cases hd : isSeparator d with
    | false => exact .inr ⟨[], d, cs, fun _ h => absurd h List.not_mem_nil, hd, rfl⟩
    | true =>
      rcases ih with hall | ⟨gap, c, rest, hgap, hc, rfl⟩
      · exact .inl (List.forall_mem_cons.2 ⟨hd, hall⟩)
      · exact .inr ⟨d :: gap, c, rest, List.forall_mem_cons.2 ⟨hd, hgap⟩, hc, rfl⟩

section

variable {lx : Lexer} {gap rest : List Char}

/-- Where the lexer is. -/
def place (lx : Lexer) : Place :=
  { offset := lx.offset, line := lx.line, lineStart := lx.lineStart }

/-- The lexer behind separators, with `rest` ahead. -/
def pass (lx : Lexer) (gap rest : List Char) : Lexer :=
  { mode := if '\n' ∈ gap then .instruction else lx.mode
    rest
    offset := (lx.place.after gap).offset
    line := (lx.place.after gap).line
    lineStart := (lx.place.after gap).lineStart }

/-- Behind a gap the rest is ahead. -/
@[simp]
theorem rest_pass (lx : Lexer) (gap rest : List Char) : (lx.pass gap rest).rest = rest := rfl

/-- The place moves on over the gap. -/
@[simp]
theorem place_pass (lx : Lexer) (gap rest : List Char) :
    (lx.pass gap rest).place = lx.place.after gap := rfl

/-- Passing nothing changes nothing. -/
theorem pass_nil (lx : Lexer) : lx.pass [] lx.rest = lx := rfl

/-- A gap is passed character by character. -/
theorem pass_cons (lx : Lexer) (c : Char) (gap ds rest : List Char) :
    lx.pass (c :: gap) rest = (lx.pass [c] ds).pass gap rest := by
  simp only [pass, List.mem_cons, List.not_mem_nil, or_false]
  by_cases hc : '\n' = c
  · simp only [hc, true_or, if_true, ite_self]
    rfl
  · simp only [hc, false_or, if_false]
    rfl

/-- One separator is passed. -/
theorem skip_cons {c : Char} (hc : isSeparator c = true) (hrest : lx.rest = c :: rest) :
    lx.skip = (lx.pass [c] rest).skip := by
  rw [skip, hrest, skipFrom]
  by_cases hline : c = '\n'
  · subst hline
    rfl
  · have hblank : isBlank c = true := by simpa [isSeparator, hline] using hc
    have hnext : lx.place.next c = { lx.place with offset := lx.offset + 1 } := by
      rw [Place.next, if_neg hline, utf8Size_of_isBlank hblank]
      rfl
    have hmem : '\n' ∉ [c] := by simpa using Ne.symm hline
    rw [if_neg hline, if_pos hblank, skip, pass, if_neg hmem, Place.after_cons, hnext]
    rfl

/-- Separators are passed. -/
theorem skip_pass (hgap : ∀ c ∈ gap, isSeparator c = true) (hrest : lx.rest = gap ++ rest) :
    lx.skip = (lx.pass gap rest).skip := by
  induction gap generalizing lx with
  | nil => rw [← pass_nil lx, hrest, List.nil_append]; rfl
  | cons c gap ih =>
    obtain ⟨hc, hgap⟩ := List.forall_mem_cons.1 hgap
    rw [skip_cons hc hrest, ih hgap rfl, pass_cons lx c gap (gap ++ rest) rest]
    rfl

/-- Nothing is skipped before a token. -/
theorem skip_eq_self (h : ∀ c ∈ lx.rest.head?, isSeparator c = false) : lx.skip = lx := by
  obtain ⟨mode, text, offset, line, lineStart⟩ := lx
  cases text with
  | nil => rfl
  | cons c cs =>
    obtain ⟨hline, hblank⟩ := isSeparator_eq_false_iff.1 (h c rfl)
    simp [skip, skipFrom, hline, hblank]

end

/-! ### What a call gives -/

/-- The span of what was found. -/
def Found.span : Found → Span
  | token l => l.span
  | error e => e.span
  | eof span => span

/-- A token or a fault, not the end. -/
def Found.isPiece : Found → Bool
  | eof _ => false
  | _ => true

namespace Cut

/-- What is reported of a cut. -/
def found (cut : Cut) (span : Span) : Found :=
  match cut.outcome with
  | .ok token => .token { token, span }
  | .error fault => .error { fault, text := String.ofList (Text.trim cut.lexeme), span }

/-- What the lexer waits for after a cut. -/
def mode (cut : Cut) (before : Mode) : Mode :=
  match cut.outcome with
  | .ok _ => .operand
  | .error _ => before

/-- A piece has the place at which it was found. -/
@[simp]
theorem span_found (cut : Cut) (span : Span) : (cut.found span).span = span := by
  unfold found
  split <;> rfl

/-- What is cut off is a piece, be it a token or a fault. -/
@[simp]
theorem isPiece_found (cut : Cut) (span : Span) : (cut.found span).isPiece = true := by
  unfold found
  split <;> rfl

end Cut

/-- Takes a cut: what is found, and the lexer behind it. -/
def take (lx : Lexer) (cut : Cut) : Found × Lexer :=
  (cut.found (lx.spanAhead (byteLength cut.lexeme)), lx.advance (cut.mode lx.mode) cut)

section

variable {lx : Lexer} {gap cs : List Char} {c : Char}

/-- **Behind separators alone is the end.** -/
theorem scan_of_separators (h : ∀ c ∈ lx.rest, isSeparator c = true) :
    lx.scan = (.eof ((lx.pass lx.rest []).spanAhead 0), lx.pass lx.rest []) := by
  have hskip : lx.skip = lx.pass lx.rest [] := by
    rw [skip_pass h (List.append_nil _).symm, skip_eq_self]
    exact fun _ hc => by cases hc
  rw [scan, hskip]
  rfl

/-- **Behind separators a cut is taken.** -/
theorem scan_of_gap (hgap : ∀ d ∈ gap, isSeparator d = true) (hc : isSeparator c = false)
    (hrest : lx.rest = gap ++ c :: cs) :
    lx.scan = (lx.pass gap (c :: cs)).take ((lx.pass gap (c :: cs)).mode.cut c cs) := by
  have hskip : lx.skip = lx.pass gap (c :: cs) := by
    rw [skip_pass hgap hrest, skip_eq_self]
    rintro d ⟨⟩
    exact hc
  simp only [scan, hskip, rest_pass, take, Cut.found, Cut.mode]
  generalize (lx.pass gap (c :: cs)).mode.cut c cs = cut
  cases cut.outcome <;> rfl

/-- The end is found where nothing but separators is ahead. -/
theorem isPiece_scan_eq_false_iff (lx : Lexer) :
    lx.scan.1.isPiece = false ↔ ∀ c ∈ lx.rest, isSeparator c = true := by
  rcases separators_or_gap lx.rest with hall | ⟨gap, c, cs, hgap, hc, hrest⟩
  · rw [scan_of_separators hall]
    exact iff_of_true rfl hall
  · rw [scan_of_gap hgap hc hrest, take, Cut.isPiece_found]
    refine iff_of_false Bool.true_eq_false.mp fun hall => ?_
    have hsep := hall c (by simp [hrest])
    rw [hc] at hsep
    cases hsep

end

/-! ### Lexemes -/

/-- A run of characters without line ends has none. -/
theorem newline_not_mem_takeWhile {p : Char → Bool} (hp : p '\n' = false) (cs : List Char) :
    '\n' ∉ cs.takeWhile p := by
  intro h
  have htrue := List.all_eq_true.1 List.all_takeWhile '\n' h
  rw [hp] at htrue
  cases htrue

/-- A cut has no line end in it. -/
theorem newline_not_mem_lexeme (m : Mode) {c : Char} (hc : c ≠ '\n') (cs : List Char) :
    '\n' ∉ (m.cut c cs).lexeme := by
  have hcons {p : Char → Bool} (hp : p '\n' = false) : '\n' ∉ c :: cs.takeWhile p :=
    List.not_mem_cons_of_ne_of_not_mem (Ne.symm hc) (newline_not_mem_takeWhile hp cs)
  have hone : '\n' ∉ [c] := List.not_mem_cons_of_ne_of_not_mem (Ne.symm hc) List.not_mem_nil
  cases m with
  | instruction =>
    simp only [Mode.cut, cutInstruction]
    split
    · exact hcons rfl
    · exact hone
  | operand =>
    simp only [Mode.cut, cutOperand]
    split
    · have hbody := hcons (p := isStringChar) rfl
      simp only [cutString]
      split
      · simpa using hbody
      · exact hbody
    split
    · exact hcons rfl
    split
    · have hdigits := hcons (p := Char.isDigit) rfl
      simp only [cutNegative]
      split
      · exact hone
      · exact hdigits
    split
    · exact hcons rfl
    split
    · exact hcons rfl
    · exact hone

/-- A cut takes the character that it starts with. -/
theorem lexeme_ne_nil (m : Mode) (c : Char) (cs : List Char) : (m.cut c cs).lexeme ≠ [] := by
  intro hnil
  have hlength := congrArg List.length (lexeme_append_rest m c cs)
  rw [hnil, List.nil_append, List.length_cons] at hlength
  have hle := length_rest_le m c cs
  omega

/-- However far a call goes, the end of the text is where it was. -/
theorem place_scan (lx : Lexer) :
    lx.scan.2.place.after lx.scan.2.rest = lx.place.after lx.rest := by
  rcases separators_or_gap lx.rest with hall | ⟨gap, c, cs, hgap, hc, hrest⟩
  · rw [scan_of_separators hall]
    rfl
  · have hline := newline_not_mem_lexeme (lx.pass gap (c :: cs)).mode
      (isSeparator_eq_false_iff.1 hc).1 cs
    have hplace := Place.after_of_not_mem (p := lx.place.after gap) hline
    rw [hrest, scan_of_gap hgap hc hrest, Place.after_append, ← lexeme_append_rest, Place.after_append,
      hplace]
    rfl

/-! ### The place in the source -/

/-- The lexer has passed `before` and has the rest of the source ahead. -/
structure Reached (source : String) (before : List Char) (lx : Lexer) : Prop where
  text : source.toList = before ++ lx.rest
  place : lx.place = Place.start.after before

/-- A fresh lexer has the source ahead. -/
theorem reached_ofSource (source : String) : Reached source [] (ofSource source) :=
  { text := rfl, place := rfl }

section

variable {source : String} {before gap rest : List Char} {lx : Lexer}

/-- What is passed is added to what was passed before. -/
theorem Reached.pass (h : Reached source before lx) (hrest : lx.rest = gap ++ rest) :
    Reached source (before ++ gap) (lx.pass gap rest) :=
  { text := by rw [h.text, hrest, List.append_assoc]; rfl
    place := by rw [place_pass, h.place, Place.after_append] }

/-- So is the text of a piece that is cut off. -/
theorem Reached.advance (h : Reached source before lx) {cut : Cut} (mode : Mode)
    (hrest : lx.rest = cut.lexeme ++ cut.rest) (hline : '\n' ∉ cut.lexeme) :
    Reached source (before ++ cut.lexeme) (lx.advance mode cut) := by
  constructor
  · rw [h.text, hrest, List.append_assoc]
    rfl
  · rw [Place.after_append, Place.after_of_not_mem hline, ← h.place]
    rfl

/-- The span of what comes next is the one that a second look finds. -/
theorem Reached.spanAhead (h : Reached source before lx) {size : Nat}
    (hsize : size ≤ byteLength lx.rest) :
    lx.spanAhead size = Span.locate source (lx.spanAhead size).start (lx.spanAhead size).stop := by
  have hlocate := Span.locate_after h.text hsize
  rw [← h.place] at hlocate
  exact hlocate.symm

/-- A call goes on to a place of the source. -/
theorem Reached.scan (h : Reached source before lx) :
    ∃ before', Reached source before' lx.scan.2 := by
  rcases separators_or_gap lx.rest with hall | ⟨gap, c, cs, hgap, hc, hrest⟩
  · rw [scan_of_separators hall]
    exact ⟨_, h.pass (List.append_nil _).symm⟩
  · have hline : c ≠ '\n' := (isSeparator_eq_false_iff.1 hc).1
    rw [scan_of_gap hgap hc hrest]
    exact ⟨_, (h.pass hrest).advance _ (lexeme_append_rest _ c cs).symm
      (newline_not_mem_lexeme _ hline cs)⟩

end

/-! ### Any number of calls -/

/-- What the first `n` calls find. -/
def scans (lx : Lexer) : Nat → List Found
  | 0 => []
  | n + 1 => lx.scan.1 :: lx.scan.2.scans n

section

variable {source : String} {before : List Char} {lx : Lexer}

/-- The place of what is found is the one that the source has for its bytes. -/
theorem Reached.span_scan (h : Reached source before lx) :
    lx.scan.1.span = Span.locate source lx.scan.1.span.start lx.scan.1.span.stop := by
  rcases separators_or_gap lx.rest with hall | ⟨gap, c, cs, hgap, hc, hrest⟩
  · rw [scan_of_separators hall]
    exact (h.pass (List.append_nil _).symm).spanAhead (Nat.zero_le _)
  · rw [scan_of_gap hgap hc hrest, take, Cut.span_found]
    refine (h.pass hrest).spanAhead ?_
    rw [rest_pass, ← lexeme_append_rest, byteLength_append]
    exact Nat.le_add_right _ _

/-- Right behind a token is the same line still. -/
theorem Reached.locate_stop (h : Reached source before lx) {l : Lexeme} {next : Lexer}
    (hscan : lx.scan = (.token l, next)) :
    Span.locate source l.span.stop l.span.stop = l.span.behind := by
  rcases separators_or_gap lx.rest with hall | ⟨gap, c, cs, hgap, hc, hrest⟩
  · rw [scan_of_separators hall] at hscan
    cases hscan
  · rw [scan_of_gap hgap hc hrest] at hscan
    have hpass := h.pass hrest
    have hahead := rest_pass lx gap (c :: cs)
    generalize lx.pass gap (c :: cs) = here at hscan hpass hahead
    have hspan : here.spanAhead (byteLength (here.mode.cut c cs).lexeme) = l.span := by
      have hfound := congrArg Found.span (Prod.mk.inj hscan).1
      rwa [Cut.span_found] at hfound
    have hstart : here.lineStart ≤ here.offset := by
      have hle := Place.lineStart_le_offset (before ++ gap)
      rw [← hpass.place] at hle
      exact hle
    have hline := newline_not_mem_lexeme here.mode (isSeparator_eq_false_iff.1 hc).1 cs
    have hrest' := hahead.trans (lexeme_append_rest here.mode c cs).symm
    have hbehind := (hpass.advance here.mode hrest' hline).spanAhead (Nat.zero_le _)
    rw [← hspan]
    refine hbehind.symm.trans ?_
    simp only [Lexer.spanAhead, Lexer.advance, Span.behind, Nat.add_zero, Span.mk.injEq, true_and]
    omega

/-- **What is kept is what a second look finds.** -/
theorem Reached.span_of_mem_scans (h : Reached source before lx) {n : Nat} {f : Found}
    (hf : f ∈ lx.scans n) : f.span = Span.locate source f.span.start f.span.stop := by
  induction n generalizing before lx with
  | zero => cases hf
  | succ n ih =>
    rcases List.mem_cons.1 hf with rfl | hf
    · exact h.span_scan
    · obtain ⟨before', hnext⟩ := h.scan
      exact ih hnext hf

end

end Lexer
end Showtime
