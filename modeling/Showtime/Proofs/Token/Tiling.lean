/-
# Nothing is lost, repeated or invented

The pieces that the lexer finds, tokens and faults alike, tile the source: one
follows the other, only separators are between them, and each is read from the
text that its span covers (`Tiles`).  Calling the lexer again and again gives
such a tiling and then the end (`exists_tiles`).  From the tiling come the number
of calls, the order of the spans, that no character is passed over, and what a
token says about its text (`Token.WrittenAs`):

| token | text | behind it |
| --- | --- | --- |
| phrase | the phrase, then blanks | |
| integer | its decimal digits, after `-` for a negative one | no digit |
| string | the string between two quotes | |
| variable | the letters of its name | no letter |
| truth value | `@`, then its phrase between spaces and tabs | |
| symbol | the character | |
-/

import Mathlib.Data.List.DropRight
import Mathlib.Data.Nat.Digits.Defs
import Showtime.Proofs.Token.Step

namespace Showtime

open Lexer (byteLength)

/-! ### What is written -/

/-- The number that a list of digits stands for. -/
def decimalValue (digits : List Char) : Nat :=
  Nat.ofDigits 10 (digits.reverse.map fun c => c.toNat - '0'.toNat)

/-- The text is an integer with this value, and no digit comes behind it. -/
def IsDecimal (text rest : List Char) (value : Int) : Prop :=
  (∀ c ∈ rest.head?, c.isDigit = false) ∧
    ∃ digits, digits ≠ [] ∧ (∀ c ∈ digits, c.isDigit = true) ∧
      (text = digits ∧ value = decimalValue digits ∨
        text = '-' :: digits ∧ value = -decimalValue digits)

/-- Spaces and tabs only. -/
def IsIndent (cs : List Char) : Prop :=
  ∀ c ∈ cs, c = ' ' ∨ c = '\t'

/-- The token is read from `text`, with `rest` behind it. -/
def Token.WrittenAs (text rest : List Char) : Token → Prop
  | phrase p => p.text.toList = text.rdropWhile Lexer.isBlank
  | int n => IsDecimal text rest n.toInt
  | str s => text = '"' :: (s.toList ++ ['"'])
  | var name => text = name.toList ∧ (∀ c ∈ text, c.isAlpha = true) ∧
      ∀ c ∈ rest.head?, c.isAlpha = false
  | truth b => ∃ before after, IsIndent before ∧ IsIndent after ∧
      text = '@' :: (before ++ ((truthText b).toList ++ after))
  | symbol c => text = [c]

/-- What was found is read from `text`, with `rest` behind it; a malformed
integer is an integer out of range. -/
def Lexer.Found.WrittenAs (text rest : List Char) : Found → Prop
  | token l => l.token.WrittenAs text rest
  | error e => e.fault = .malformedInteger →
      ∃ value, IsDecimal text rest value ∧ ¬ (-2 ^ 63 ≤ value ∧ value < 2 ^ 63)
  | eof _ => True

/-! ### Integers -/

/-- Digits are read as the number that they stand for. -/
theorem ofDigitChars_eq_decimalValue (digits : List Char) :
    Nat.ofDigitChars 10 digits 0 = decimalValue digits := by
  induction digits using List.reverseRecOn with
  | nil => rfl
  | append_singleton digits c ih =>
    have hlast : decimalValue (digits ++ [c]) =
        c.toNat - '0'.toNat + 10 * decimalValue digits := by
      rw [decimalValue, List.reverse_append, List.reverse_singleton, List.singleton_append,
        List.map_cons, Nat.ofDigits_cons, decimalValue]
    rw [Nat.ofDigitChars_append, ih, hlast, Nat.ofDigitChars_cons, Nat.ofDigitChars_nil]
    omega

/-- The number of a text of digits with or without a sign. -/
theorem readInteger_eq (negative : Bool) (digits : List Char) :
    Lexer.readInteger negative digits =
      Integer.ofInt? (if negative then -(decimalValue digits : Int) else decimalValue digits) := by
  rw [Lexer.readInteger, ofDigitChars_eq_decimalValue]

/-- What is no machine integer is out of range. -/
theorem Integer.ofInt?_eq_none {n : Int} (h : ofInt? n = none) : ¬ (-2 ^ 63 ≤ n ∧ n < 2 ^ 63) := by
  unfold ofInt? at h
  split at h
  · cases h
  · next hbounds =>
    rw [Int64.toInt_minValue, Int64.toInt_maxValue] at hbounds
    omega

namespace Lexer

/-! ### What a cut is read from -/

/-- The cut is read from its lexeme, with the rest behind it. -/
def Cut.WrittenAs (cut : Cut) : Prop :=
  match cut.outcome with
  | .ok t => t.WrittenAs cut.lexeme cut.rest
  | .error fault => fault = .malformedInteger →
      ∃ value, IsDecimal cut.lexeme cut.rest value ∧ ¬ (-2 ^ 63 ≤ value ∧ value < 2 ^ 63)

section

variable {c : Char} {cs : List Char}

/-- What stops a run is not of its class. -/
theorem head?_dropWhile (p : Char → Bool) (cs : List Char) :
    ∀ c ∈ (cs.dropWhile p).head?, p c = false := by
  intro c hc
  have hnot := List.head?_dropWhile_not p cs
  rw [hc] at hnot
  simpa using hnot

/-- White space in a phrase is a space or a tab. -/
theorem indent_of_isSpace (hspace : Text.isSpace c = true) (hchar : isPhraseChar c = true) :
    c = ' ' ∨ c = '\t' := by
  simp only [isPhraseChar, Bool.or_eq_true, beq_iff_eq] at hchar
  rcases hchar with (((hupper | rfl) | rfl) | hblank) | htab
  · have hbounds : 65 ≤ c.toNat ∧ c.toNat ≤ 90 := of_decide_eq_true hupper
    simp only [Text.isSpace, Bool.or_eq_true, Bool.and_eq_true, decide_eq_true_eq,
      beq_iff_eq] at hspace
    omega
  · cases hspace
  · cases hspace
  · exact .inl hblank
  · exact .inr htab

/-- A phrase can go on with every character of a truth value. -/
theorem isPhraseChar_of_isTruthChar (h : isTruthChar c = true) : isPhraseChar c = true := by
  simp only [isTruthChar, isPhraseChar, Bool.or_eq_true] at h ⊢
  tauto

/-- No phrase starts with white space. -/
theorem not_isSpace_of_isPhraseStart (h : isPhraseStart c = true) : Text.isSpace c = false := by
  refine Bool.eq_false_iff.2 fun hspace => ?_
  have hchar : isPhraseChar c = true := by
    simp only [isPhraseStart, isPhraseChar, Bool.or_eq_true] at h ⊢
    tauto
  rcases indent_of_isSpace hspace hchar with rfl | rfl <;> cases h

/-- No phrase of the manual ends with a blank. -/
theorem rdropWhile_text (p : Phrase) : p.text.toList.rdropWhile isBlank = p.text.toList := by
  cases p <;> decide +kernel

/-- A phrase, or what looks like one and is none, is read from its own text. -/
theorem cutInstruction_writtenAs (c : Char) (cs : List Char) :
    (cutInstruction c cs).WrittenAs := by
  unfold cutInstruction
  split
  · next hstart =>
    simp only [Cut.WrittenAs]
    generalize hlexeme : c :: cs.takeWhile isPhraseChar = lexeme
    cases hread : Phrase.ofText? (String.ofList (Text.trim lexeme)) with
    | none => nofun
    | some p =>
      -- the lexeme is the phrase with nothing in front and blanks behind
      have htext : p.text.toList = Text.trim lexeme := by
        rw [Phrase.text_of_ofText? hread, String.toList_ofList]
      obtain ⟨lead, trail, hsplit, hlead, htrail⟩ := Text.exists_trim lexeme
      have hnil : lead = [] := by
        cases lead with
        | nil => rfl
        | cons d lead =>
          rw [← hlexeme] at hsplit
          obtain ⟨rfl, -⟩ := List.cons.inj hsplit
          have hspace := hlead c List.mem_cons_self
          rw [not_isSpace_of_isPhraseStart hstart] at hspace
          cases hspace
      have hblank : ∀ d ∈ trail.reverse, isBlank d = true := by
        intro d hd
        have hd := List.mem_reverse.1 hd
        have hmem : d ∈ c :: cs.takeWhile isPhraseChar := by
          rw [hlexeme, hsplit]
          simp [hd]
        have hchar : isPhraseChar d = true := by
          rcases List.mem_cons.1 hmem with rfl | hmem
          · have hspace := htrail d hd
            rw [not_isSpace_of_isPhraseStart hstart] at hspace
            cases hspace
          · exact List.all_eq_true.1 List.all_takeWhile d hmem
        rcases indent_of_isSpace (htrail d hd) hchar with rfl | rfl <;> rfl
      have hdrop : lexeme.rdropWhile isBlank = p.text.toList.rdropWhile isBlank := by
        rw [hsplit, hnil, List.nil_append, ← htext, List.rdropWhile, List.rdropWhile,
          List.reverse_append, List.dropWhile_append_of_pos hblank]
      exact (hdrop.trans (rdropWhile_text p)).symm
  · nofun

/-- A string, or one that is not closed, is read from its own text. -/
theorem cutString_writtenAs (cs : List Char) : (cutString '"' cs).WrittenAs := by
  unfold cutString
  split
  · simp [Cut.WrittenAs, Token.WrittenAs]
  · nofun

/-- Digits that were read, with or without a sign in front. -/
theorem digits_writtenAs {negative : Bool} {text digits : List Char} (hne : digits ≠ [])
    (hdigits : ∀ d ∈ digits, d.isDigit = true)
    (htext : text = if negative then '-' :: digits else digits) :
    Cut.WrittenAs
      { outcome := orFault .malformedInteger .int (readInteger negative digits)
        lexeme := text
        rest := cs.dropWhile Char.isDigit } := by
  have hdecimal : IsDecimal text (cs.dropWhile Char.isDigit)
      (if negative then -(decimalValue digits : Int) else decimalValue digits) := by
    refine ⟨head?_dropWhile _ _, digits, hne, hdigits, ?_⟩
    cases negative with
    | true => exact .inr ⟨htext, rfl⟩
    | false => exact .inl ⟨htext, rfl⟩
  unfold Cut.WrittenAs
  rw [readInteger_eq]
  split
  · next t hread =>
    cases hvalue : Integer.ofInt?
        (if negative then -(decimalValue digits : Int) else decimalValue digits) with
    | none =>
      rw [hvalue] at hread
      cases hread
    | some n =>
      rw [hvalue] at hread
      obtain rfl := Except.ok.inj hread
      rw [Token.WrittenAs, Integer.toInt_of_ofInt? hvalue]
      exact hdecimal
  · next fault hread =>
    intro _
    refine ⟨_, hdecimal, Integer.ofInt?_eq_none ?_⟩
    cases hvalue : Integer.ofInt?
        (if negative then -(decimalValue digits : Int) else decimalValue digits) with
    | none => rfl
    | some n =>
      rw [hvalue] at hread
      cases hread

/-- A truth value, or a sign without one, is read from its own text. -/
theorem cutTruth_writtenAs (cs : List Char) : (cutTruth '@' cs).WrittenAs := by
  unfold cutTruth Cut.WrittenAs
  simp only
  cases hread : truthOfText? (String.ofList (Text.trim (cs.takeWhile isTruthChar))) with
  | none => nofun
  | some b =>
    have htext : (truthText b).toList = Text.trim (cs.takeWhile isTruthChar) := by
      rw [truthText_of_truthOfText? hread, String.toList_ofList]
    obtain ⟨lead, trail, hsplit, hlead, htrail⟩ := Text.exists_trim (cs.takeWhile isTruthChar)
    have hindent {d : Char} (hspace : Text.isSpace d = true)
        (hd : d ∈ cs.takeWhile isTruthChar) : d = ' ' ∨ d = '\t' :=
      indent_of_isSpace hspace
        (isPhraseChar_of_isTruthChar (List.all_eq_true.1 List.all_takeWhile d hd))
    refine ⟨lead, trail, fun d hd => ?_, fun d hd => ?_, ?_⟩
    · exact hindent (hlead d hd) (by rw [hsplit]; simp [hd])
    · exact hindent (htrail d hd) (by rw [hsplit]; simp [hd])
    · rw [htext, ← hsplit]

/-- **A cut is read from its lexeme.** -/
theorem cut_writtenAs (m : Mode) (c : Char) (cs : List Char) : (m.cut c cs).WrittenAs := by
  cases m with
  | instruction => exact cutInstruction_writtenAs c cs
  | operand =>
    have hall {p : Char → Bool} (hc : p c = true) : ∀ d ∈ c :: cs.takeWhile p, p d = true :=
      List.forall_mem_cons.2 ⟨hc, List.all_eq_true.1 List.all_takeWhile⟩
    simp only [Mode.cut, cutOperand]
    split
    · next hquote =>
      subst hquote
      exact cutString_writtenAs cs
    split
    · next hdigit => exact digits_writtenAs (List.cons_ne_nil _ _) (hall hdigit) rfl
    split
    · next hsign =>
      subst hsign
      unfold cutNegative
      split
      · rfl
      · next hne =>
        exact digits_writtenAs hne (List.all_eq_true.1 List.all_takeWhile) rfl
    split
    · next hletter =>
      refine ⟨?_, hall hletter, head?_dropWhile _ _⟩
      simp [cutVariable]
    split
    · next hmark =>
      subst hmark
      exact cutTruth_writtenAs cs
    · rfl

/-- What is found in a text is read from it. -/
theorem Cut.WrittenAs.found {cut : Cut} (h : cut.WrittenAs) (span : Span) :
    (cut.found span).WrittenAs cut.lexeme cut.rest := by
  unfold Cut.WrittenAs at h
  unfold Cut.found
  cases houtcome : cut.outcome with
  | ok t =>
    rw [houtcome] at h
    exact h
  | error fault =>
    rw [houtcome] at h
    exact h

end

/-! ### Tilings -/

/-- The pieces tile a text that starts at an offset. -/
inductive Tiles : Nat → List Char → List Found → Prop
  | done {offset gap} (hgap : ∀ c ∈ gap, isSeparator c = true) : Tiles offset gap []
  | piece {offset gap text rest f fs} (hgap : ∀ c ∈ gap, isSeparator c = true) (htext : text ≠ [])
    (hstart : f.span.start = offset + byteLength gap)
    (hstop : f.span.stop = f.span.start + byteLength text) (hpiece : f.isPiece = true)
    (hwritten : f.WrittenAs text rest) (hrest : Tiles f.span.stop rest fs) :
    Tiles offset (gap ++ (text ++ rest)) (f :: fs)

/-- **The lexer tiles the text ahead, and then finds the end.** -/
theorem exists_tiles (lx : Lexer) :
    ∃ fs span, lx.scans (fs.length + 1) = fs ++ [.eof span] ∧ Tiles lx.offset lx.rest fs := by
  -- on the length of what is ahead: a piece takes at least one character
  induction hlength : lx.rest.length using Nat.strongRecOn generalizing lx with
  | ind n ih =>
    subst hlength
    rcases separators_or_gap lx.rest with hall | ⟨gap, c, cs, hgap, hc, hrest⟩
    · refine ⟨[], (lx.pass lx.rest []).spanAhead 0, ?_, .done hall⟩
      simp [scans, scan_of_separators hall]
    · have hoffset : (lx.pass gap (c :: cs)).offset = lx.offset + byteLength gap :=
        Place.offset_after lx.place gap
      have hscan := scan_of_gap hgap hc hrest
      generalize lx.pass gap (c :: cs) = behind at hoffset hscan
      have hsplit := lexeme_append_rest behind.mode c cs
      have hne := lexeme_ne_nil behind.mode c cs
      have hle := length_rest_le behind.mode c cs
      have hwritten := cut_writtenAs behind.mode c cs
      generalize behind.mode.cut c cs = cut at hscan hsplit hne hle hwritten
      have hshorter : cut.rest.length < lx.rest.length := by
        rw [hrest, List.length_append, List.length_cons]
        omega
      obtain ⟨fs, span, hscans, htiles⟩ := ih _ hshorter (behind.take cut).2 rfl
      have hspan : (behind.take cut).1.span = behind.spanAhead (byteLength cut.lexeme) :=
        Cut.span_found _ _
      refine ⟨(behind.take cut).1 :: fs, span, ?_, ?_⟩
      · rw [List.length_cons, scans, hscan, hscans, List.cons_append]
      · rw [hrest, ← hsplit]
        refine .piece hgap hne ?_ ?_ (Cut.isPiece_found _ _) (hwritten.found _) ?_
        · rw [hspan]
          exact hoffset
        · rw [hspan]
          rfl
        · rw [hspan]
          exact htiles

namespace Tiles

variable {offset : Nat} {text : List Char} {fs : List Found}

/-- Every piece takes a byte at least. -/
theorem length_le (h : Tiles offset text fs) : fs.length ≤ byteLength text := by
  induction h with
  | done => exact Nat.zero_le _
  | @piece offset gap text rest f fs _ htext _ _ _ _ _ ih =>
    have hpos : 0 < byteLength text := by
      cases text with
      | nil => exact absurd rfl htext
      | cons c cs =>
        rw [byteLength_cons]
        have := c.utf8Size_pos
        omega
    rw [List.length_cons, byteLength_append, byteLength_append]
    omega

/-- Tiles are tokens and faults. -/
theorem isPiece (h : Tiles offset text fs) : ∀ f ∈ fs, f.isPiece = true := by
  induction h with
  | done => exact fun _ hf => absurd hf List.not_mem_nil
  | piece _ _ _ _ hpiece _ _ ih => exact List.forall_mem_cons.2 ⟨hpiece, ih⟩

/-- No tile starts before the text does. -/
theorem offset_le (h : Tiles offset text fs) : ∀ f ∈ fs, offset ≤ f.span.start := by
  induction h with
  | done => exact fun _ hf => absurd hf List.not_mem_nil
  | piece _ _ hstart hstop _ _ _ ih =>
    refine List.forall_mem_cons.2 ⟨by omega, fun g hg => ?_⟩
    have := ih g hg
    omega

/-- One piece follows the other. -/
theorem pairwise (h : Tiles offset text fs) : fs.Pairwise fun f g => f.span.stop ≤ g.span.start := by
  induction h with
  | done => exact .nil
  | piece _ _ _ _ _ _ hrest ih => exact .cons hrest.offset_le ih

/-- **No character is passed over** unless it is a separator. -/
theorem exists_mem (h : Tiles offset text fs) {before after : List Char} {c : Char}
    (htext : text = before ++ c :: after) (hc : isSeparator c = false) :
    ∃ f ∈ fs, f.span.start ≤ offset + byteLength before ∧
      offset + byteLength before < f.span.stop := by
  have hsize := c.utf8Size_pos
  have hnot {gap : List Char} (hgap : ∀ d ∈ gap, isSeparator d = true) : c ∉ gap := by
    intro hmem
    rw [hgap c hmem] at hc
    cases hc
  induction h generalizing before with
  | done hgap => exact absurd (by simp [htext]) (hnot hgap)
  | @piece offset gap text rest f fs hgap _ hstart hstop _ _ _ ih =>
    -- the character is not among the separators in front of the piece
    obtain ⟨mid, rfl, hmid⟩ : ∃ mid, before = gap ++ mid ∧ text ++ rest = mid ++ c :: after := by
      rcases List.append_eq_append_iff.1 htext with ⟨mid, hbefore, hrest⟩ | ⟨mid, hgap', hrest⟩
      · exact ⟨mid, hbefore, hrest⟩
      · cases mid with
        | nil => exact ⟨[], by simpa using hgap'.symm, by simpa using hrest.symm⟩
        | cons d mid =>
          obtain ⟨rfl, -⟩ := List.cons.inj hrest
          exact absurd (by simp [hgap']) (hnot hgap)
    rw [byteLength_append]
    -- it is in the piece or behind it
    rcases List.append_eq_append_iff.1 hmid with ⟨later, rfl, hrest⟩ | ⟨tail, rfl, hrest⟩
    · obtain ⟨g, hg, hlo, hhi⟩ := ih hrest
      rw [byteLength_append]
      exact ⟨g, List.mem_cons_of_mem _ hg, by omega, by omega⟩
    · cases tail with
      | nil =>
        have hrest' : rest = [] ++ c :: after := by simpa using hrest.symm
        obtain ⟨g, hg, hlo, hhi⟩ := ih hrest'
        rw [byteLength_nil] at hlo hhi
        rw [List.append_nil] at hstop
        exact ⟨g, List.mem_cons_of_mem _ hg, by omega, by omega⟩
      | cons d tail =>
        obtain ⟨rfl, -⟩ := List.cons.inj hrest
        rw [byteLength_append, byteLength_cons] at hstop
        exact ⟨f, List.mem_cons_self, by omega, by omega⟩

end Tiles
end Lexer

/-! ### Slices of the source -/

namespace Span

/-- The bytes of a text lead to what follows it. -/
theorem dropBytes_append (cs ds : List Char) : dropBytes (byteLength cs) (cs ++ ds) = some ds := by
  induction cs with
  | nil => cases ds <;> rfl
  | cons c cs ih =>
    obtain ⟨n, hn⟩ := Nat.exists_eq_add_of_lt c.utf8Size_pos
    have hlength : byteLength (c :: cs) = n + byteLength cs + 1 := by
      rw [Lexer.byteLength_cons]
      omega
    rw [hlength, List.cons_append, dropBytes, if_pos (by omega)]
    have hrest : n + byteLength cs + 1 - c.utf8Size = byteLength cs := by omega
    rw [hrest, ih]

/-- The bytes of a text are the text. -/
theorem takeBytes_append (cs ds : List Char) : takeBytes (byteLength cs) (cs ++ ds) = some cs := by
  induction cs with
  | nil => cases ds <;> rfl
  | cons c cs ih =>
    obtain ⟨n, hn⟩ := Nat.exists_eq_add_of_lt c.utf8Size_pos
    have hlength : byteLength (c :: cs) = n + byteLength cs + 1 := by
      rw [Lexer.byteLength_cons]
      omega
    rw [hlength, List.cons_append, takeBytes, if_pos (by omega)]
    have hrest : n + byteLength cs + 1 - c.utf8Size = byteLength cs := by omega
    rw [hrest, ih]
    rfl

/-- A span that starts behind `before` and is as long as `text` covers it. -/
theorem slice_eq {source : String} {before text rest : List Char} {s : Span}
    (hsource : source.toList = before ++ (text ++ rest)) (hstart : s.start = byteLength before)
    (hstop : s.stop = s.start + byteLength text) : s.slice source = some (String.ofList text) := by
  have hsize : s.stop - s.start = byteLength text := by omega
  have hle : s.start ≤ s.stop := by omega
  rw [slice, hsource, hstart, dropBytes_append, ← hstart]
  simp only [Option.bind_eq_bind, Option.bind_some, if_pos hle, hsize, takeBytes_append]
  rfl

end Span

namespace Lexer

/-- **Every piece is read from the text that its span covers.** -/
theorem Tiles.slice {source : String} {before text : List Char} {fs : List Found}
    (h : Tiles (byteLength before) text fs) (hsource : source.toList = before ++ text) :
    ∀ f ∈ fs, f.span.start < f.span.stop ∧ ∃ text rest,
      f.span.slice source = some (String.ofList text) ∧
        Span.dropBytes f.span.stop source.toList = some rest ∧ f.WrittenAs text rest := by
  generalize hoffset : byteLength before = offset at h
  induction h generalizing before with
  | done => exact fun _ hf => absurd hf List.not_mem_nil
  | @piece offset gap text rest f fs _ htext hstart hstop _ hwritten _ ih =>
    have hstop' : f.span.stop = byteLength (before ++ gap ++ text) := by
      rw [byteLength_append, byteLength_append]
      omega
    refine List.forall_mem_cons.2 ⟨⟨?_, text, rest, ?_, ?_, hwritten⟩, ?_⟩
    · cases text with
      | nil => exact absurd rfl htext
      | cons c cs =>
        have := c.utf8Size_pos
        rw [byteLength_cons] at hstop
        omega
    · have hsource' : source.toList = (before ++ gap) ++ (text ++ rest) := by
        rw [hsource, List.append_assoc]
      refine Span.slice_eq hsource' ?_ hstop
      rw [byteLength_append]
      omega
    · rw [hstop', hsource, ← Span.dropBytes_append (before ++ gap ++ text) rest]
      simp
    · exact ih (by rw [hsource]; simp) hstop'.symm

end Lexer

/-- **Nothing is lost, repeated or invented.**  Called until it finds the end,
which takes one call more than there are bytes at most, the lexer gives pieces
whose spans are not empty, lie between characters of the source and follow one
another; every character outside of them is a separator; and each piece is read
from the text of its span. -/
theorem lexer_loses_nothing (source : String) :
    ∃ (fs : List Lexer.Found) (last : Span),
      (Lexer.ofSource source).scans (fs.length + 1) = fs ++ [.eof last] ∧
      (∀ f ∈ fs, f.isPiece = true) ∧ fs.length + 1 ≤ source.utf8ByteSize + 1 ∧
      (fs.Pairwise fun f g => f.span.stop ≤ g.span.start) ∧
      (∀ f ∈ fs, f.span.start < f.span.stop ∧ ∃ text rest,
        f.span.slice source = some (String.ofList text) ∧
          Span.dropBytes f.span.stop source.toList = some rest ∧ f.WrittenAs text rest) ∧
      ∀ before c after, source.toList = before ++ c :: after →
        Lexer.isSeparator c = true ∨
          ∃ f ∈ fs, f.span.start ≤ byteLength before ∧ byteLength before < f.span.stop := by
  obtain ⟨fs, last, hscans, htiles⟩ :
      ∃ fs last, (Lexer.ofSource source).scans (fs.length + 1) = fs ++ [.eof last] ∧
        Lexer.Tiles (byteLength []) source.toList fs := Lexer.exists_tiles (Lexer.ofSource source)
  refine ⟨fs, last, hscans, htiles.isPiece, ?_, htiles.pairwise, htiles.slice rfl, ?_⟩
  · have hlength := htiles.length_le
    rw [Span.byteLength_toList] at hlength
    omega
  · intro before c after hsource
    cases hc : Lexer.isSeparator c with
    | true => exact .inl rfl
    | false =>
      have hmem := htiles.exists_mem hsource hc
      rw [Lexer.byteLength_nil, Nat.zero_add] at hmem
      exact .inr hmem

end Showtime
