/-
# Line by line

No token goes past a line end, and behind a line end an instruction is awaited
again, whatever came before.  The tokens of a text that is cut at a line end are
therefore those of the two parts: the first part as it stands, the second part
moved by the bytes and lines of the first (`tokenize_append_newline`).

| text behind the line end is ... | lemma |
| --- | --- |
| not looked at by a cut | `cut_followed` |
| reached where the first part ends | `stream_followed` |
| read as it would be at the start | `stream_shift` |
-/

import Showtime.Proofs.Token.Step

namespace Showtime

/-! ### Moved places -/

/-- The span in a text with so many bytes and lines in front; the column does
not change. -/
def Span.shift (bytes lines : Nat) (s : Span) : Span :=
  { s with start := s.start + bytes, stop := s.stop + bytes, line := s.line + lines }

/-- The token further down. -/
def Lexeme.shift (bytes lines : Nat) (l : Lexeme) : Lexeme :=
  { l with span := l.span.shift bytes lines }

/-- The fault further down. -/
def LexError.shift (bytes lines : Nat) (e : LexError) : LexError :=
  { e with span := e.span.shift bytes lines }

/-- The stream further down. -/
def TokenStream.shift (bytes lines : Nat) (s : TokenStream) : TokenStream :=
  { lexemes := s.lexemes.map (Lexeme.shift bytes lines)
    fault := s.fault.map (LexError.shift bytes lines) }

/-- A stream and, unless it ends with a fault, another behind it. -/
def TokenStream.andThen (s t : TokenStream) : TokenStream :=
  match s.fault with
  | some _ => s
  | none => { t with lexemes := s.lexemes ++ t.lexemes }

/-- The place further down. -/
def Place.shift (bytes lines : Nat) (p : Place) : Place :=
  { offset := p.offset + bytes, line := p.line + lines, lineStart := p.lineStart + bytes }

/-- A text is passed alike from a place that is moved. -/
theorem Place.after_shift (bytes lines : Nat) (p : Place) (cs : List Char) :
    (p.shift bytes lines).after cs = (p.after cs).shift bytes lines := by
  induction cs generalizing p with
  | nil => rfl
  | cons c cs ih =>
    have hnext : (p.shift bytes lines).next c = (p.next c).shift bytes lines := by
      by_cases hc : c = '\n'
      · simp only [Place.next, Place.shift, if_pos hc, Nat.add_right_comm]
      · simp only [Place.next, Place.shift, if_neg hc, Nat.add_right_comm]
    rw [after_cons, hnext, ih, after_cons]

namespace Lexer

/-- What is found further down. -/
def Found.shift (bytes lines : Nat) : Found → Found
  | token l => token (l.shift bytes lines)
  | error e => error (e.shift bytes lines)
  | eof span => eof (span.shift bytes lines)

/-- The lexer further down. -/
def shift (bytes lines : Nat) (lx : Lexer) : Lexer :=
  { lx with
    offset := lx.offset + bytes, line := lx.line + lines, lineStart := lx.lineStart + bytes }

section

variable (bytes lines : Nat) (lx : Lexer)

/-- A gap is passed alike by a lexer that is moved. -/
theorem pass_shift (gap rest : List Char) :
    (lx.shift bytes lines).pass gap rest = (lx.pass gap rest).shift bytes lines := by
  have hplace : (lx.shift bytes lines).place.after gap = (lx.place.after gap).shift bytes lines :=
    Place.after_shift bytes lines lx.place gap
  simp only [pass, hplace]
  rfl

/-- What is ahead of a lexer that is moved is moved. -/
theorem spanAhead_shift (size : Nat) :
    (lx.shift bytes lines).spanAhead size = (lx.spanAhead size).shift bytes lines := by
  simp only [spanAhead, shift, Span.shift, Span.mk.injEq, Nat.add_sub_add_right, and_true, true_and]
  omega

/-- A piece is taken alike by a lexer that is moved. -/
theorem take_shift (cut : Cut) :
    (lx.shift bytes lines).take cut =
      ((lx.take cut).1.shift bytes lines, (lx.take cut).2.shift bytes lines) := by
  have hnext : (lx.shift bytes lines).advance (cut.mode lx.mode) cut =
      (lx.advance (cut.mode lx.mode) cut).shift bytes lines := by
    simp only [advance, shift, Nat.add_right_comm]
  have hfound (span : Span) :
      cut.found (span.shift bytes lines) = (cut.found span).shift bytes lines := by
    simp only [Cut.found]
    split <;> rfl
  rw [take, spanAhead_shift, hfound]
  exact congrArg _ hnext

/-- **A call further down finds the same further down.** -/
theorem scan_shift :
    (lx.shift bytes lines).scan =
      (lx.scan.1.shift bytes lines, lx.scan.2.shift bytes lines) := by
  rcases separators_or_gap lx.rest with hall | ⟨gap, c, cs, hgap, hc, hrest⟩
  · have hshift : ∀ c ∈ (lx.shift bytes lines).rest, isSeparator c = true := hall
    rw [scan_of_separators hall, scan_of_separators hshift, pass_shift, spanAhead_shift]
    rfl
  · have hshift : (lx.shift bytes lines).rest = gap ++ c :: cs := hrest
    rw [scan_of_gap hgap hc hrest, scan_of_gap hgap hc hshift, pass_shift, ← take_shift]
    rfl

/-- A lexer that is moved finds the same tokens, moved as well. -/
theorem stream_shift : (lx.shift bytes lines).stream = lx.stream.shift bytes lines := by
  fun_induction stream lx with
  | case1 lx l next h tail ih =>
    have hscan := scan_shift bytes lines lx
    rw [h] at hscan
    rw [stream_of_token hscan, ih]
    rfl
  | case2 lx e next h =>
    have hscan := scan_shift bytes lines lx
    rw [h] at hscan
    exact stream_of_error hscan
  | case3 lx span next h =>
    have hscan := scan_shift bytes lines lx
    rw [h] at hscan
    exact stream_of_eof hscan

end

/-! ### Text behind a line end -/

section

variable {p : Char → Bool} {cs ds : List Char}

/-- A run of characters ends where the next text does not go on with it. -/
theorem takeWhile_append_of_head (hds : ∀ d ∈ ds.head?, p d = false) :
    (cs ++ ds).takeWhile p = cs.takeWhile p := by
  induction cs with
  | nil =>
    cases ds with
    | nil => rfl
    | cons d ds => exact List.takeWhile_cons_of_neg (Bool.eq_false_iff.1 (hds d rfl))
  | cons c cs ih => simp only [List.cons_append, List.takeWhile_cons, ih]

/-- What is left behind the run is followed by the next text. -/
theorem dropWhile_append_of_head (hds : ∀ d ∈ ds.head?, p d = false) :
    (cs ++ ds).dropWhile p = cs.dropWhile p ++ ds := by
  induction cs with
  | nil =>
    cases ds with
    | nil => rfl
    | cons d ds => exact List.dropWhile_cons_of_neg (Bool.eq_false_iff.1 (hds d rfl))
  | cons c cs ih =>
    simp only [List.cons_append, List.dropWhile_cons, ih]
    split <;> rfl

end

/-- The cut with more text behind it. -/
def Cut.followed (cut : Cut) (ds : List Char) : Cut :=
  { cut with rest := cut.rest ++ ds }

/-- **A cut does not look past a line end.** -/
theorem cut_followed (m : Mode) (c : Char) (cs ds : List Char) :
    m.cut c (cs ++ '\n' :: ds) = (m.cut c cs).followed ('\n' :: ds) := by
  have htake {p : Char → Bool} (hp : p '\n' = false) :
      (cs ++ '\n' :: ds).takeWhile p = cs.takeWhile p :=
    takeWhile_append_of_head (by rintro d ⟨⟩; exact hp)
  have hdrop {p : Char → Bool} (hp : p '\n' = false) :
      (cs ++ '\n' :: ds).dropWhile p = cs.dropWhile p ++ '\n' :: ds :=
    dropWhile_append_of_head (by rintro d ⟨⟩; exact hp)
  -- no class of characters that a piece runs over has the line end in it
  cases m with
  | instruction =>
    simp only [Mode.cut, cutInstruction, htake (p := isPhraseChar) rfl,
      hdrop (p := isPhraseChar) rfl]
    split <;> rfl
  | operand =>
    simp only [Mode.cut, cutOperand]
    split
    · simp only [cutString, htake (p := isStringChar) rfl, hdrop (p := isStringChar) rfl]
      cases hbehind : cs.dropWhile isStringChar with
      | nil => rfl
      | cons d rest =>
        by_cases hquote : d = '"'
        · subst hquote
          rfl
        · simp [hquote, Cut.followed]
    split
    · simp only [cutInteger, htake (p := Char.isDigit) rfl, hdrop (p := Char.isDigit) rfl]
      rfl
    split
    · simp only [cutNegative, htake (p := Char.isDigit) rfl, hdrop (p := Char.isDigit) rfl]
      split <;> rfl
    split
    · simp only [cutVariable, htake (p := Char.isAlpha) rfl, hdrop (p := Char.isAlpha) rfl]
      rfl
    split
    · simp only [cutTruth, htake (p := isTruthChar) rfl, hdrop (p := isTruthChar) rfl]
      rfl
    · rfl

/-- The lexer with more text behind its own. -/
def followed (lx : Lexer) (ds : List Char) : Lexer :=
  { lx with rest := lx.rest ++ ds }

/-- The lexer behind all its text and a line end. -/
def nextLine (lx : Lexer) (ds : List Char) : Lexer :=
  lx.pass (lx.rest ++ ['\n']) ds

section

variable {lx next : Lexer} (ds : List Char)

/-- Every call leaves the next line where it is. -/
theorem nextLine_scan (lx : Lexer) : lx.scan.2.nextLine ds = lx.nextLine ds := by
  have hplace := place_scan lx
  simp only [nextLine, pass, Place.after_append, hplace, List.mem_append, List.mem_singleton,
    or_true, if_true]

/-- At the end of the first part, the call goes on with the next line. -/
theorem scan_followed_of_separators (h : ∀ c ∈ lx.rest, isSeparator c = true) :
    (lx.followed ('\n' :: ds)).scan = (lx.nextLine ds).scan := by
  have hgap : ∀ c ∈ lx.rest ++ ['\n'], isSeparator c = true := by
    intro c hc
    rcases List.mem_append.1 hc with hc | hc
    · exact h c hc
    · rw [List.mem_singleton.1 hc]
      rfl
  have hrest : (lx.followed ('\n' :: ds)).rest = (lx.rest ++ ['\n']) ++ ds := by simp [followed]
  have hskip : (lx.followed ('\n' :: ds)).skip = (lx.nextLine ds).skip := skip_pass hgap hrest
  rw [scan, scan, hskip]

/-- Before the end of the first part, the call does not look at the next line. -/
theorem scan_followed {f : Found} (h : lx.scan = (f, next)) (hf : f.isPiece = true) :
    (lx.followed ('\n' :: ds)).scan = (f, next.followed ('\n' :: ds)) := by
  rcases separators_or_gap lx.rest with hall | ⟨gap, c, cs, hgap, hc, hrest⟩
  · have hend := (isPiece_scan_eq_false_iff lx).2 hall
    rw [h, hf] at hend
    cases hend
  · have hfollowed : (lx.followed ('\n' :: ds)).rest = gap ++ c :: (cs ++ '\n' :: ds) := by
      simp [followed, hrest]
    have hpass : (lx.followed ('\n' :: ds)).pass gap (c :: (cs ++ '\n' :: ds)) =
        (lx.pass gap (c :: cs)).followed ('\n' :: ds) := rfl
    have hmode : ((lx.pass gap (c :: cs)).followed ('\n' :: ds)).mode =
        (lx.pass gap (c :: cs)).mode := rfl
    rw [scan_of_gap hgap hc hrest] at h
    obtain ⟨rfl, rfl⟩ := Prod.mk.inj h
    rw [scan_of_gap hgap hc hfollowed, hpass, hmode, cut_followed]
    rfl

/-- **The stream of a text goes on behind a line end.** -/
theorem stream_followed (lx : Lexer) :
    (lx.followed ('\n' :: ds)).stream = lx.stream.andThen (lx.nextLine ds).stream := by
  fun_induction stream lx with
  | case1 lx l next h tail ih =>
    have hnext := nextLine_scan ds lx
    rw [h] at hnext
    rw [stream_of_token (scan_followed ds h rfl), ih, hnext]
    simp only [TokenStream.andThen, tail]
    split <;> rfl
  | case2 lx e next h => exact stream_of_error (scan_followed ds h rfl)
  | case3 lx span next h =>
    have hall : ∀ c ∈ lx.rest, isSeparator c = true := by
      rw [← isPiece_scan_eq_false_iff, h]
      rfl
    rw [stream, stream, scan_followed_of_separators ds hall]
    rfl

end

/-- A lexer at the next line is a fresh one that is moved there. -/
theorem nextLine_ofChars (cs ds : List Char) :
    (ofChars cs).nextLine ds = (ofChars ds).shift (byteLength cs + 1) (cs.count '\n' + 1) := by
  have hplace : (ofChars cs).place.after (cs ++ ['\n']) =
      Place.start.shift (byteLength cs + 1) (cs.count '\n' + 1) := by
    rw [Place.after_append, Place.after_cons, Place.after_nil, Place.next, if_pos rfl,
      Place.offset_after, Place.line_after]
    simp only [place, ofChars, Place.start, Place.shift, Place.mk.injEq]
    omega
  have hmem : '\n' ∈ cs ++ ['\n'] := by simp
  change pass (ofChars cs) (cs ++ ['\n']) ds = _
  rw [pass, hplace, if_pos hmem]
  rfl

/-- The stream of two texts with a line end between them. -/
theorem stream_append_newline (cs ds : List Char) :
    (ofChars (cs ++ '\n' :: ds)).stream =
      (ofChars cs).stream.andThen
        ((ofChars ds).stream.shift (byteLength cs + 1) (cs.count '\n' + 1)) := by
  have hfollowed : ofChars (cs ++ '\n' :: ds) = (ofChars cs).followed ('\n' :: ds) := rfl
  rw [hfollowed, stream_followed, nextLine_ofChars, stream_shift]

end Lexer

/-- **The tokens of two texts with a line end between them.**  A fault in the
first text is reported as it is.  Otherwise the tokens are those of the first,
then those of the second, as many bytes and lines further down as come before
it; and a fault in the second text is reported just so much further down. -/
theorem tokenize_append_newline (s t : String) :
    tokenize (s ++ "\n" ++ t) =
      let bytes := s.utf8ByteSize + 1
      let lines := s.toList.count '\n' + 1
      match tokenize s, tokenize t with
      | .error e, _ => .error e
      | .ok _, .error e => .error (e.shift bytes lines)
      | .ok ls, .ok ks => .ok (ls ++ ks.map (Lexeme.shift bytes lines)) := by
  have hchars : (s ++ "\n" ++ t).toList = s.toList ++ '\n' :: t.toList := by simp
  have hstream : (Lexer.ofSource (s ++ "\n" ++ t)).stream =
      (Lexer.ofSource s).stream.andThen
        ((Lexer.ofSource t).stream.shift (s.utf8ByteSize + 1) (s.toList.count '\n' + 1)) := by
    rw [Lexer.ofSource, hchars, Lexer.stream_append_newline, Span.byteLength_toList]
    rfl
  simp only [tokenize, hstream]
  cases hs : (Lexer.ofSource s).stream.fault with
  | some e => simp only [TokenStream.andThen, hs]
  | none =>
    simp only [TokenStream.andThen, hs, TokenStream.shift]
    cases (Lexer.ofSource t).stream.fault with
    | some e => rfl
    | none => rfl

end Showtime
