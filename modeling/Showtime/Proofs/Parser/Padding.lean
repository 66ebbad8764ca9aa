/-
# Blanks around lines

Blanks in front of a line are passed over like all separators.  Blanks behind a
line are passed over too, or they go into its last piece: a phrase and a truth
value take spaces and tabs, a string that is not closed takes anything
(`cut_padded`).  In each case the value of a token, and the text that is reported
of a fault, are what they were, because white space at the end of it does not
count.

The lexer therefore goes side by side with itself through a text with and
without blanks at its end (`Padded.scan`, `Padded.stream`), and from line to line
through a whole source (`stream_lines`).  What the parser makes of two such
streams is the same (`Draft.Alike.readAll`), and so is the line of every error.

A carriage return behind a line goes into no token.  So the tokens are also as
long as they were, and every error has its column (`padding_keeps_meaning`).
-/

import Showtime.Proofs.Parser.Places
import Showtime.Proofs.Token.Lines

namespace Showtime

open Lexer (isBlank)

/-- What is added to the lines of a source: blanks at both ends, or carriage
returns at the end. -/
inductive Padding where
  | blanks
  | returns
deriving DecidableEq, Repr

namespace Padding

variable {p : Padding} {taken left line line' : List Char} {s s' : Span}

/-- `line'` is `line` with padding. -/
def Adds (p : Padding) (line line' : List Char) : Prop :=
  match p with
  | blanks => ∃ pre post, (∀ c ∈ pre, isBlank c = true) ∧ (∀ c ∈ post, isBlank c = true) ∧
      line' = pre ++ (line ++ post)
  | returns => ∃ n, line' = line ++ List.replicate n '\r'

/-- What padding leaves of a place: the line, and the column too if nothing but
carriage returns is added. -/
def Keeps (p : Padding) (s s' : Span) : Prop :=
  match p with
  | blanks => s.line = s'.line
  | returns => s.line = s'.line ∧ s.column = s'.column

/-- Padding keeps the line in any case, and the column where nothing but carriage
returns is added. -/
theorem keeps_iff : p.Keeps s s' ↔ s.line = s'.line ∧ (p = .returns → s.column = s'.column) := by
  cases p <;> simp [Keeps]

/-- What padding leaves of the place of a token: its size too, if nothing but
carriage returns is added. -/
structure KeepsToken (p : Padding) (s s' : Span) : Prop where
  keeps : p.Keeps s s'
  size : p = .returns → s.stop - s.start = s'.stop - s'.start

/-- Places that belong together do so still behind the same number of lines. -/
theorem Keeps.shift (h : p.Keeps s s') (bytes bytes' lines : Nat) :
    p.Keeps (s.shift bytes lines) (s'.shift bytes' lines) := by
  obtain ⟨hline, hcolumn⟩ := keeps_iff.1 h
  exact keeps_iff.2 ⟨congrArg (· + lines) hline, hcolumn⟩

/-- Places of tokens that belong together do so still behind the same number of lines.
-/
theorem KeepsToken.shift (h : p.KeepsToken s s') (bytes bytes' lines : Nat) :
    p.KeepsToken (s.shift bytes lines) (s'.shift bytes' lines) := by
  refine ⟨h.keeps.shift bytes bytes' lines, fun hp => ?_⟩
  have hsize := h.size hp
  simp only [Span.shift]
  omega

/-- Padding that leaves a token where it is leaves the place behind it. -/
theorem KeepsToken.behind (h : p.KeepsToken s s') : p.Keeps s.behind s'.behind := by
  obtain ⟨hline, hcolumn⟩ := keeps_iff.1 h.keeps
  refine keeps_iff.2 ⟨hline, fun hp => ?_⟩
  simp only [Span.behind, hcolumn hp, h.size hp]

/-- What can be added behind a line. -/
structure Fits (p : Padding) (post : List Char) : Prop where
  blank : ∀ c ∈ post, isBlank c = true
  returns : p = .returns → ∀ c ∈ post, c = '\r'

/-- What can be added behind a line can be added part by part. -/
theorem Fits.of_append (h : p.Fits (taken ++ left)) : p.Fits taken ∧ p.Fits left := by
  obtain ⟨htaken, hleft⟩ := List.forall_mem_append.1 h.blank
  refine ⟨⟨htaken, fun hp => ?_⟩, ⟨hleft, fun hp => ?_⟩⟩
  · exact (List.forall_mem_append.1 (h.returns hp)).1
  · exact (List.forall_mem_append.1 (h.returns hp)).2

/-- Padding in front and behind, whatever is added. -/
theorem Adds.exists_append (h : p.Adds line line') :
    ∃ pre post, (∀ c ∈ pre, isBlank c = true) ∧ (p = .returns → pre = []) ∧ p.Fits post ∧
      line' = pre ++ (line ++ post) := by
  cases p with
  | blanks =>
    obtain ⟨pre, post, hpre, hpost, rfl⟩ := h
    exact ⟨pre, post, hpre, nofun, ⟨hpost, nofun⟩, rfl⟩
  | returns =>
    obtain ⟨n, rfl⟩ := h
    have hreturn (c : Char) (hc : c ∈ List.replicate n '\r') : c = '\r' :=
      List.eq_of_mem_replicate hc
    refine ⟨[], _, nofun, fun _ => rfl, ⟨fun c hc => ?_, fun _ => hreturn⟩, rfl⟩
    rw [hreturn c hc]
    rfl

/-- A text with padding has as many lines as without. -/
theorem Adds.count_eq (h : p.Adds line line') : line'.count '\n' = line.count '\n' := by
  obtain ⟨pre, post, hpre, -, hpost, rfl⟩ := h.exists_append
  have hzero {cs : List Char} (hcs : ∀ c ∈ cs, isBlank c = true) : cs.count '\n' = 0 :=
    List.count_eq_zero_of_not_mem fun hmem => Bool.false_ne_true (hcs '\n' hmem)
  rw [List.count_append, List.count_append, hzero hpre, hzero hpost.blank]
  omega

end Padding

namespace Lexer

variable {p : Padding} {post : List Char}

/-! ### One cut -/

/-- What separates tokens is white space. -/
theorem isSpace_of_isBlank {c : Char} (h : isBlank c = true) : Text.isSpace c = true := by
  rcases isBlank_iff.1 h with rfl | rfl | rfl | rfl <;> rfl

/-- The same cut from a text with padding: `taken` goes into the lexeme and
`left` stays behind it. -/
structure Cut.Padded (p : Padding) (taken left : List Char) (cut cut' : Cut) : Prop where
  outcome : cut'.outcome = cut.outcome
  lexeme : cut'.lexeme = cut.lexeme ++ taken
  rest : cut'.rest = cut.rest ++ left
  fits_taken : p.Fits taken
  fits_left : p.Fits left
  /-- A carriage return goes into no token. -/
  token : p = .returns → ∀ t, cut.outcome = .ok t → taken = []

/-- The run at the front of a text goes on into the padding, but only where the
text is nothing but that run. -/
theorem exists_takeWhile_append (q : Char → Bool) (cs post : List Char) :
    ∃ taken left, post = taken ++ left ∧ (∀ c ∈ taken, q c = true) ∧
      (cs.dropWhile q ≠ [] → taken = []) ∧
      (cs ++ post).takeWhile q = cs.takeWhile q ++ taken ∧
      (cs ++ post).dropWhile q = cs.dropWhile q ++ left := by
  induction cs with
  | nil =>
    exact ⟨post.takeWhile q, post.dropWhile q, List.takeWhile_append_dropWhile.symm,
      List.all_eq_true.1 List.all_takeWhile, fun h => absurd rfl h, rfl, rfl⟩
  | cons c cs ih =>
    obtain ⟨taken, left, hpost, htaken, hnil, htake, hdrop⟩ := ih
    cases hc : q c with
    | true =>
      rw [List.cons_append, List.takeWhile_cons_of_pos hc, List.takeWhile_cons_of_pos hc,
        List.dropWhile_cons_of_pos hc, List.dropWhile_cons_of_pos hc]
      exact ⟨taken, left, hpost, htaken, hnil, by rw [htake, List.cons_append], hdrop⟩
    | false =>
      have hc' : ¬ q c = true := Bool.eq_false_iff.1 hc
      rw [List.cons_append, List.takeWhile_cons_of_neg hc', List.takeWhile_cons_of_neg hc',
        List.dropWhile_cons_of_neg hc', List.dropWhile_cons_of_neg hc']
      exact ⟨[], post, rfl, nofun, fun _ => rfl, rfl, rfl⟩

/-- A cut that does not look at the padding. -/
theorem Cut.padded_followed (hpost : p.Fits post) (cut : Cut) :
    Cut.Padded p [] post cut (cut.followed post) :=
  { outcome := rfl
    lexeme := (List.append_nil _).symm
    rest := rfl
    fits_taken := ⟨nofun, nofun⟩
    fits_left := hpost
    token := fun _ _ _ => rfl }

/-- A run of characters that padding can be taken into is cut as it was, if only
the text without white space counts. -/
theorem Cut.padded_run (hpost : p.Fits post) {q : Char → Bool} (hq : q '\r' = false)
    (outcome : List Char → Except LexFault Token) (c : Char) (cs : List Char)
    (houtcome : ∀ words taken, (∀ c ∈ taken, Text.isSpace c = true) →
      outcome (words ++ taken) = outcome words) :
    ∃ taken left, Cut.Padded p taken left
      { outcome := outcome (cs.takeWhile q), lexeme := c :: cs.takeWhile q, rest := cs.dropWhile q }
      { outcome := outcome ((cs ++ post).takeWhile q)
        lexeme := c :: (cs ++ post).takeWhile q
        rest := (cs ++ post).dropWhile q } := by
  obtain ⟨taken, left, rfl, hclass, -, htake, hdrop⟩ := exists_takeWhile_append q cs post
  obtain ⟨htaken, hleft⟩ := hpost.of_append
  refine ⟨taken, left, ?_⟩
  rw [htake, hdrop]
  refine ⟨houtcome _ _ fun c hc => isSpace_of_isBlank (htaken.blank c hc), rfl, rfl, htaken, hleft,
    fun h _ _ => ?_⟩
  refine List.eq_nil_iff_forall_not_mem.2 fun d hd => ?_
  have hreturn := hclass d hd
  rw [htaken.returns h d hd, hq] at hreturn
  cases hreturn

/-- A string that is closed ends before the padding; one that is not takes it. -/
theorem cutString_padded (hpost : p.Fits post) (c : Char) (cs : List Char) :
    ∃ taken left, Cut.Padded p taken left (cutString c cs) (cutString c (cs ++ post)) := by
  obtain ⟨taken, left, rfl, -, hnil, htake, hdrop⟩ := exists_takeWhile_append isStringChar cs post
  obtain ⟨htaken, hleft⟩ := hpost.of_append
  have hquote : ∀ rest, left ≠ '"' :: rest := by
    rintro rest rfl
    cases hleft.blank '"' List.mem_cons_self
  refine ⟨taken, left, ?_⟩
  cases hbehind : cs.dropWhile isStringChar with
  | nil =>
    -- By `hquote` the padding does not close the string.
    simp only [cutString, htake, hdrop, hbehind, List.nil_append]
    exact ⟨rfl, rfl, rfl, htaken, hleft, fun _ t ht => by cases ht⟩
  | cons d rest =>
    obtain rfl := hnil (by rw [hbehind]; exact List.cons_ne_nil d rest)
    have hcut : cutString c (cs ++ ([] ++ left)) = (cutString c cs).followed left := by
      simp only [cutString, htake, hdrop, hbehind, List.append_nil]
      by_cases hd : d = '"'
      · subst hd
        rfl
      · simp [hd, Cut.followed]
    rw [hcut]
    exact Cut.padded_followed hleft _

/-- **A cut with padding behind it.** -/
theorem cut_padded (hpost : p.Fits post) (m : Mode) (c : Char) (cs : List Char) :
    ∃ taken left, Cut.Padded p taken left (m.cut c cs) (m.cut c (cs ++ post)) := by
  have hfollowed (cut : Cut) : ∃ taken left, Cut.Padded p taken left cut (cut.followed post) :=
    ⟨[], post, cut.padded_followed hpost⟩
  have hblank (d : Char) (hd : d ∈ post.head?) : isBlank d = true :=
    hpost.blank d (List.mem_of_mem_head? hd)
  have hdigit : ∀ d ∈ post.head?, d.isDigit = false := fun d hd => by
    rcases isBlank_iff.1 (hblank d hd) with rfl | rfl | rfl | rfl <;> rfl
  have halpha : ∀ d ∈ post.head?, d.isAlpha = false := fun d hd => by
    rcases isBlank_iff.1 (hblank d hd) with rfl | rfl | rfl | rfl <;> rfl
  -- digits and letters stop at a blank, so padding stays behind them; phrases and truth
  -- values run on over blanks, which are trimmed off again
  cases m with
  | instruction =>
    simp only [Mode.cut, cutInstruction]
    split
    · refine Cut.padded_run hpost rfl (fun words => orFault .unknownInstruction .phrase
        (Phrase.ofText? (String.ofList (Text.trim (c :: words))))) c cs fun words taken htaken => ?_
      rw [← List.cons_append, Text.trim_append htaken]
    · exact hfollowed { outcome := .error .unexpectedCharacter, lexeme := [c], rest := cs }
  | operand =>
    simp only [Mode.cut, cutOperand]
    split
    · exact cutString_padded hpost c cs
    split
    · have hcut : cutInteger c (cs ++ post) = (cutInteger c cs).followed post := by
        simp only [cutInteger, takeWhile_append_of_head hdigit, dropWhile_append_of_head hdigit]
        rfl
      rw [hcut]
      exact hfollowed _
    split
    · have hcut : cutNegative c (cs ++ post) = (cutNegative c cs).followed post := by
        simp only [cutNegative, takeWhile_append_of_head hdigit, dropWhile_append_of_head hdigit]
        split <;> rfl
      rw [hcut]
      exact hfollowed _
    split
    · have hcut : cutVariable c (cs ++ post) = (cutVariable c cs).followed post := by
        simp only [cutVariable, takeWhile_append_of_head halpha, dropWhile_append_of_head halpha]
        rfl
      rw [hcut]
      exact hfollowed _
    split
    · refine Cut.padded_run hpost rfl (fun words => orFault .unknownTruth .truth
        (truthOfText? (String.ofList (Text.trim words)))) c cs fun words taken htaken => ?_
      rw [Text.trim_append htaken]
    · exact hfollowed { outcome := .ok (.symbol c), lexeme := [c], rest := cs }

/-! ### One call -/

/-- The same lexer, with padding behind its text. -/
structure Padded (p : Padding) (post : List Char) (lx lx' : Lexer) : Prop where
  mode : lx'.mode = lx.mode
  rest : lx'.rest = lx.rest ++ post
  line : lx'.line = lx.line
  place : p = .returns → lx'.place = lx.place
  fits : p.Fits post

/-- The same call.  Behind a token the lexers go on side by side; behind a fault
nothing more is asked of them. -/
inductive CallPadded (p : Padding) : Found × Lexer → Found × Lexer → Prop
  | token {l l' next next' post} (hl : l.Alike p.KeepsToken l') (hnext : next.Padded p post next') :
    CallPadded p (.token l, next) (.token l', next')
  | error {e e' next next'} (he : e.Alike p.Keeps e') :
    CallPadded p (.error e, next) (.error e', next')
  | eof {span span' next next'} : CallPadded p (.eof span, next) (.eof span', next')

namespace Padded

variable {lx lx' : Lexer}

/-- Lexers that are padded alike are so when they have passed the same text. -/
theorem pass (h : lx.Padded p post lx') (gap rest : List Char) :
    (lx.pass gap rest).Padded p post (lx'.pass gap (rest ++ post)) := by
  have hline : (lx'.place.after gap).line = (lx.place.after gap).line := by
    rw [Place.line_after, Place.line_after]
    exact congrArg (· + _) h.line
  exact
    { mode := by simp only [Lexer.pass, h.mode]
      rest := rfl
      line := hline
      place := fun hp => by rw [place_pass, place_pass, h.place hp]
      fits := h.fits }

/-- What is ahead of them has places that belong together. -/
theorem keeps_spanAhead (h : lx.Padded p post lx') (size size' : Nat) :
    p.Keeps (lx.spanAhead size) (lx'.spanAhead size') := by
  refine Padding.keeps_iff.2 ⟨h.line.symm, fun hp => ?_⟩
  obtain ⟨hoffset, -, hstart⟩ := Place.mk.inj (h.place hp)
  simp only [Lexer.spanAhead, hoffset, hstart]

/-- **A cut is taken alike.** -/
theorem take (h : lx.Padded p post lx') {taken left : List Char} {cut cut' : Cut}
    (hcut : cut.Padded p taken left cut') : CallPadded p (lx.take cut) (lx'.take cut') := by
  simp only [Lexer.take, Cut.found, Cut.mode, hcut.outcome]
  cases houtcome : cut.outcome with
  | ok t =>
    -- Only here does the size count, and here no carriage return was taken.
    have hsize (hp : p = .returns) : byteLength cut'.lexeme = byteLength cut.lexeme := by
      rw [hcut.lexeme, hcut.token hp t houtcome, List.append_nil]
    refine .token { token := rfl, span := ⟨h.keeps_spanAhead _ _, fun hp => ?_⟩ }
      { mode := rfl, rest := hcut.rest, line := h.line, fits := hcut.fits_left, place := fun hp => ?_ }
    · simp only [Lexer.spanAhead, hsize hp]
      omega
    · obtain ⟨hoffset, hline, hstart⟩ := Place.mk.inj (h.place hp)
      simp only [Lexer.place, Lexer.advance, hsize hp, hoffset, hline, hstart]
  | error fault =>
    have htext : Text.trim cut'.lexeme = Text.trim cut.lexeme := by
      rw [hcut.lexeme, Text.trim_append]
      exact fun c hc => isSpace_of_isBlank (hcut.fits_taken.blank c hc)
    rw [htext]
    exact .error { fault := rfl, text := rfl, span := h.keeps_spanAhead _ _ }

/-- **A call finds the same.** -/
theorem scan (h : lx.Padded p post lx') : CallPadded p lx.scan lx'.scan := by
  rcases separators_or_gap lx.rest with hall | ⟨gap, c, cs, hgap, hc, hrest⟩
  · have hpost : ∀ c ∈ post, isSeparator c = true := fun c hc => by
      rw [isSeparator, h.fits.blank c hc, Bool.or_true]
    have hall' : ∀ c ∈ lx'.rest, isSeparator c = true := by
      rw [h.rest]
      exact List.forall_mem_append.2 ⟨hall, hpost⟩
    rw [scan_of_separators hall, scan_of_separators hall']
    exact .eof
  · have hrest' : lx'.rest = gap ++ c :: (cs ++ post) := by
      rw [h.rest, hrest, List.append_assoc, List.cons_append]
    have hpass := h.pass gap (c :: cs)
    obtain ⟨taken, left, hcut⟩ := cut_padded h.fits (lx.pass gap (c :: cs)).mode c cs
    rw [scan_of_gap hgap hc hrest, scan_of_gap hgap hc hrest', ← List.cons_append, hpass.mode]
    exact hpass.take hcut

/-! ### All tokens -/

/-- **Padding at the end of a text changes no token.** -/
theorem stream (h : lx.Padded p post lx') : lx.stream.Alike p.KeepsToken p.Keeps lx'.stream := by
  induction lx using Lexer.stream.induct generalizing post lx' with
  | case1 lx l next hscan ih =>
    have hcall := h.scan
    rw [hscan] at hcall
    generalize hscan' : lx'.scan = call at hcall
    cases hcall with
    | token hl hnext =>
      obtain ⟨hlexemes, hfault⟩ := ih hnext
      rw [stream_of_token hscan, stream_of_token hscan']
      exact ⟨.cons hl hlexemes, hfault⟩
  | case2 lx e next hscan =>
    have hcall := h.scan
    rw [hscan] at hcall
    generalize hscan' : lx'.scan = call at hcall
    cases hcall with
    | error he =>
      rw [stream_of_error hscan, stream_of_error hscan']
      exact ⟨.nil, .some he⟩
  | case3 lx span next hscan =>
    have hcall := h.scan
    rw [hscan] at hcall
    generalize hscan' : lx'.scan = call at hcall
    cases hcall with
    | eof =>
      rw [stream_of_eof hscan, stream_of_eof hscan']
      exact ⟨.nil, .none⟩

end Padded

/-- A line with padding has the tokens that it has without. -/
theorem stream_line {line line' : List Char} (h : p.Adds line line') :
    (ofChars line).stream.Alike p.KeepsToken p.Keeps (ofChars line').stream := by
  obtain ⟨pre, post, hpre, hnil, hpost, rfl⟩ := h.exists_append
  have hnewline : '\n' ∉ pre := fun hmem => Bool.false_ne_true (hpre '\n' hmem)
  have hgap : ∀ c ∈ pre, isSeparator c = true := fun c hc => by
    rw [isSeparator, hpre c hc, Bool.or_true]
  let inner := (ofChars (pre ++ (line ++ post))).pass pre (line ++ post)
  have hskip : (ofChars (pre ++ (line ++ post))).skip = inner.skip := skip_pass hgap rfl
  have hpadded : (ofChars line).Padded p post inner :=
    { mode := if_neg hnewline
      rest := rfl
      line := by
        change (Place.start.after pre).line = 1
        rw [Place.line_after, List.count_eq_zero_of_not_mem hnewline]
        rfl
      place := fun hp => by
        change Place.start.after pre = Place.start
        rw [hnil hp, Place.after_nil]
      fits := hpost }
  have hstream : (ofChars (pre ++ (line ++ post))).stream = inner.stream := by
    rw [stream, stream, scan, scan, hskip]
  rw [hstream]
  exact hpadded.stream

end Lexer

/-! ### Line by line -/

namespace TokenStream.Alike

variable {R F : Span → Span → Prop} {s s' t t' : TokenStream}

/-- Streams that are alike are so one behind the other. -/
theorem andThen (hs : s.Alike R F s') (ht : t.Alike R F t') :
    (s.andThen t).Alike R F (s'.andThen t') := by
  obtain ⟨ls, fault⟩ := s
  obtain ⟨ls', fault'⟩ := s'
  obtain ⟨hlexemes, hfault⟩ := hs
  cases hfault with
  | none => exact ⟨List.rel_append hlexemes ht.lexemes, ht.fault⟩
  | some he => exact ⟨hlexemes, .some he⟩

/-- Streams that are alike are so when both are moved by as many lines. -/
theorem shift {p : Padding} (h : s.Alike p.KeepsToken p.Keeps s') (bytes bytes' lines : Nat) :
    (s.shift bytes lines).Alike p.KeepsToken p.Keeps (s'.shift bytes' lines) := by
  obtain ⟨ls, fault⟩ := s
  obtain ⟨ls', fault'⟩ := s'
  obtain ⟨hlexemes, hfault⟩ := h
  constructor
  · exact List.rel_map (fun _ _ hl => ⟨hl.token, hl.span.shift bytes bytes' lines⟩) hlexemes
  · cases hfault with
    | none => exact .none
    | some he => exact .some ⟨he.fault, he.text, he.span.shift bytes bytes' lines⟩

end TokenStream.Alike

/-- **Padding of lines changes no token.** -/
theorem stream_lines {p : Padding} {lines lines' : List (List Char)}
    (h : List.Forall₂ p.Adds lines lines') :
    (Lexer.ofChars (['\n'].intercalate lines)).stream.Alike p.KeepsToken p.Keeps
      (Lexer.ofChars (['\n'].intercalate lines')).stream := by
  induction h with
  | nil =>
    have hempty : (Lexer.ofChars []).stream = { lexemes := [], fault := none } :=
      Lexer.stream_of_eof rfl
    rw [List.intercalate_nil, hempty]
    exact ⟨.nil, .none⟩
  | @cons line line' lines lines' hline hlines ih =>
    cases hlines with
    | nil =>
      rw [List.intercalate_singleton, List.intercalate_singleton]
      exact Lexer.stream_line hline
    | cons =>
      rw [List.intercalate_cons_cons, List.intercalate_cons_cons, List.append_assoc,
        List.append_assoc, List.singleton_append, List.singleton_append,
        Lexer.stream_append_newline, Lexer.stream_append_newline, hline.count_eq]
      exact (Lexer.stream_line hline).andThen (ih.shift _ _ _)

/-! ### What the parser says -/

/-- Right behind every token of a source is the same line still. -/
theorem Lexer.Reached.locate_stop_of_mem {source : String} {before : List Char} {lx : Lexer}
    (h : Reached source before lx) {l : Lexeme} (hl : l ∈ lx.stream.lexemes) :
    Span.locate source l.span.stop l.span.stop = l.span.behind := by
  induction lx using Lexer.stream.induct generalizing before with
  | case1 lx k next hscan ih =>
    rw [stream_of_token hscan] at hl
    rcases List.mem_cons.1 hl with rfl | hl
    · exact h.locate_stop hscan
    · obtain ⟨before', hnext⟩ := h.scan
      rw [hscan] at hnext
      exact ih hnext hl
  | case2 lx e next hscan =>
    rw [stream_of_error hscan] at hl
    cases hl
  | case3 lx span next hscan =>
    rw [stream_of_eof hscan] at hl
    cases hl

/-- The same kind of error and the same sentence, at places that belong together. -/
inductive CompileError.Alike (R : Span → Span → Prop) : CompileError → CompileError → Prop
  | lexer (message : String) {s s'} (h : R s s') : Alike R (.lexer message s) (.lexer message s')
  | parser (message : String) {s s'} (h : R s s') : Alike R (.parser message s) (.parser message s')

/-- The same program, or the same error at places that belong together. -/
inductive ParseAlike (R : Span → Span → Prop) :
    Except CompileError Program → Except CompileError Program → Prop
  | program (program : Program) : ParseAlike R (.ok program) (.ok program)
  | error {e e'} (h : e.Alike R e') : ParseAlike R (.error e) (.error e')

/-- Errors that are alike are reported in the same words. -/
theorem ParseError.Alike.toCompileError {p : Padding} {e e' : ParseError}
    (h : e.Alike p.KeepsToken p.Keeps p.Keeps e') :
    e.toCompileError.Alike p.Keeps e'.toCompileError := by
  cases h with
  | @lex e e' he =>
    have hmessage : e.message = e'.message := by rw [LexError.message, LexError.message, he.fault, he.text]
    rw [ParseError.toCompileError, LexError.toCompileError, hmessage]
    exact .lexer _ he.span
  | token t expected hspan => exact .parser _ hspan.keeps
  | ending expected hspan => exact .parser _ hspan
  | repeated name hspan => exact .parser _ hspan.keeps

/-- The lines of a source. -/
def linesOf (source : String) : List (List Char) :=
  source.toList.splitOn '\n'

/-- **Line endings and indentation do not change what a source means.**  With
blanks at both ends of its lines it is the same program, or it has an error of
the same kind, with the same sentence, on the same line; with carriage returns
at the ends of its lines the error is also in the same column. -/
theorem padding_keeps_meaning {p : Padding} {source source' : String}
    (h : List.Forall₂ p.Adds (linesOf source) (linesOf source')) :
    ParseAlike p.Keeps (Program.parse source) (Program.parse source') := by
  have hstream : (Lexer.ofSource source).stream.Alike p.KeepsToken p.Keeps
      (Lexer.ofSource source').stream := by
    have hlines := stream_lines h
    rwa [linesOf, linesOf, List.intercalate_splitOn, List.intercalate_splitOn] at hlines
  have hread : ReadAlike p.KeepsToken p.Keeps p.Keeps (Program.read source)
      (Program.read source') := by
    refine Parser.Draft.Alike.start.readAll hstream.fault hstream.lexemes
      (fun _ => Lexer.place_of_mem_stream) (fun _ => Lexer.place_of_mem_stream) ?_ ?_
    · -- Without a token the end of the input is at the start of both sources.
      simp [Padding.keeps_iff, Span.locate]
    · intro l hl k hk hspan
      rw [(Lexer.reached_ofSource source).locate_stop_of_mem hl,
        (Lexer.reached_ofSource source').locate_stop_of_mem hk]
      exact hspan.behind
  rw [Program.parse, Program.parse]
  generalize Program.read source = reading, Program.read source' = reading' at hread
  cases hread with
  | program program => exact .program program
  | error he => exact .error he.toCompileError

/-- A source whose last statement lacks its variable. -/
def unassignedLf : String := "IT'S SHOWTIME\nGET YOUR ASS TO MARS"

/-- The same source with carriage returns before its line ends and at its end. -/
def unassignedCrlf : String := "IT'S SHOWTIME\r\nGET YOUR ASS TO MARS\r"

/-- The end of the input is reported at one and the same place. -/
theorem unassignedCrlf_keeps_place :
    Program.parse unassignedLf = .error (.parser "unexpected end of input, expected \"variable\""
      { start := 34, stop := 34, line := 2, column := 21 }) ∧
    ∃ span, Program.parse unassignedCrlf = .error
        (.parser "unexpected end of input, expected \"variable\"" span) ∧
      2 = span.line ∧ 21 = span.column := by
  have hlines : List.Forall₂ Padding.returns.Adds (linesOf unassignedLf) (linesOf unassignedCrlf) :=
    .cons ⟨1, by decide⟩ (.cons ⟨1, by decide⟩ .nil)
  have hparse : Program.parse unassignedLf = .error
      (.parser "unexpected end of input, expected \"variable\""
        { start := 34, stop := 34, line := 2, column := 21 }) := by
    decide +kernel
  have halike := padding_keeps_meaning hlines
  rw [hparse] at halike
  generalize Program.parse unassignedCrlf = reading at halike
  cases halike with
  | error he =>
    cases he with
    | parser _ hspan => exact ⟨hparse, _, rfl, hspan⟩

end Showtime
