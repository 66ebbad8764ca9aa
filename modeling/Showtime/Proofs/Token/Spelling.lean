/-
# The texts of tokens

Which lists of tokens a source can have (`exists_tokenize_iff`): those that
begin with a phrase and whose names and strings have the right characters
(`Token.Spellable`).  For each there is a source, which writes a character in
front of every token and then its text:

| token | in front | text |
| --- | --- | --- |
| phrase | line end | as in the manual |
| integer | carriage return | decimal digits, after `-` for a negative one |
| string | carriage return | as it is, between quotes |
| variable, truth value, symbol | carriage return | as it is |

The carriage return cannot be replaced by a space: a phrase would take the space,
and the capital letters of a variable behind it.
-/

import Showtime.Token.Lexer

namespace Showtime

/-- A string of ASCII letters, at least one. -/
def IsName (s : String) : Prop :=
  s ≠ "" ∧ ∀ c ∈ s.toList, c.isAlpha = true

namespace Token

/-- The lexer can give this token. -/
def Spellable : Token → Prop
  | phrase _ | int _ | truth _ => True
  | str s => ∀ c ∈ s.toList, c ≠ '"' ∧ c ≠ '\n'
  | var name => IsName name
  | symbol c => (c ≠ '\n' ∧ Lexer.isBlank c = false) ∧
      c ≠ '"' ∧ c.isDigit = false ∧ c.isAlpha = false ∧ c ≠ '@'

/-- The token is a phrase. -/
def isPhrase : Token → Bool
  | phrase _ => true
  | _ => false

/-- The decimal text of an integer. -/
def decimal (n : Int64) : List Char :=
  if n.toInt < 0 then '-' :: Nat.toDigits 10 n.toInt.natAbs else Nat.toDigits 10 n.toInt.natAbs

/-- A text that is read as the token. -/
def spelling : Token → List Char
  | phrase p => p.text.toList
  | int n => decimal n
  | str s => '"' :: (s.toList ++ ['"'])
  | var name => name.toList
  | truth b => '@' :: (truthText b).toList
  | symbol c => [c]

/-- The character in front of the token. -/
def separator : Token → Char
  | phrase _ => '\n'
  | _ => '\r'

/-- What the lexer waits for when it finds the token. -/
def mode : Token → Lexer.Mode
  | phrase _ => .instruction
  | _ => .operand

end Token

/-- A text that is read as the tokens. -/
def spell (ts : List Token) : List Char :=
  ts.flatMap fun t => t.separator :: t.spelling

namespace Lexer

/-! ### Runs of characters -/

/-- A text that no token before it goes on with. -/
def Parts (rest : List Char) : Prop :=
  ∀ c ∈ rest.head?, c = '\n' ∨ c = '\r'

/-- Each token is written behind a separator, so that no token goes on with the next. -/
theorem parts_spell (ts : List Token) : Parts (spell ts) := by
  cases ts with
  | nil => nofun
  | cons t ts =>
    rintro c ⟨⟩
    cases t with
    | phrase p => exact .inl rfl
    | _ => exact .inr rfl

section

variable {p : Char → Bool} {cs rest : List Char}

/-- A run of characters ends before such a text. -/
theorem takeWhile_of_parts (hcs : ∀ c ∈ cs, p c = true) (hrest : Parts rest)
    (hline : p '\n' = false) (hreturn : p '\r' = false) : (cs ++ rest).takeWhile p = cs := by
  rw [List.takeWhile_append_of_pos hcs]
  cases rest with
  | nil => exact List.append_nil cs
  | cons c rest => rcases hrest c rfl with rfl | rfl <;> simp [hline, hreturn]

/-- What is left behind the run is the text itself. -/
theorem dropWhile_of_parts (hcs : ∀ c ∈ cs, p c = true) (hrest : Parts rest)
    (hline : p '\n' = false) (hreturn : p '\r' = false) : (cs ++ rest).dropWhile p = rest := by
  rw [List.dropWhile_append_of_pos hcs]
  cases rest with
  | nil => rfl
  | cons c rest => rcases hrest c rfl with rfl | rfl <;> simp [hline, hreturn]

end

/-! ### One token from its text -/

/-- The phrases of the manual have the right characters, and no blanks around
them. -/
theorem text_phrase (p : Phrase) :
    ∃ c cs, p.text.toList = c :: cs ∧ isPhraseStart c = true ∧ cs.all isPhraseChar = true ∧
      Text.trim p.text.toList = p.text.toList := by
  cases p <;> exact ⟨_, _, rfl, by decide +kernel⟩

/-- The text of a truth value consists of its own characters and has no blanks around
it. -/
theorem text_truth (b : Bool) :
    (truthText b).toList.all isTruthChar = true ∧
      Text.trim (truthText b).toList = (truthText b).toList := by
  cases b <;> decide +kernel

variable {c : Char} {cs rest : List Char}

/-- A phrase is read from its text. -/
theorem cutInstruction_text {p : Phrase} (hp : p.text.toList = c :: cs)
    (hc : isPhraseStart c = true) (hcs : cs.all isPhraseChar = true)
    (htrim : Text.trim p.text.toList = p.text.toList) (hrest : Parts rest) :
    cutInstruction c (cs ++ rest) = { outcome := .ok (.phrase p), lexeme := c :: cs, rest } := by
  have hread : Phrase.ofText? (String.ofList (Text.trim (c :: cs))) = some p := by
    rw [← hp, htrim, String.ofList_toList, Phrase.ofText?_text]
  rw [List.all_eq_true] at hcs
  simp only [cutInstruction, if_pos hc, takeWhile_of_parts hcs hrest rfl rfl,
    dropWhile_of_parts hcs hrest rfl rfl, hread, orFault]

/-- A string is read from its quotes and what is between them. -/
theorem cutString_text {s : String} (hs : ∀ c ∈ s.toList, c ≠ '"' ∧ c ≠ '\n') :
    cutString '"' (s.toList ++ '"' :: rest) =
      { outcome := .ok (.str s), lexeme := '"' :: (s.toList ++ ['"']), rest } := by
  have hchars : ∀ c ∈ s.toList, isStringChar c = true := by
    intro c hc
    simpa [isStringChar] using hs c hc
  have htake : (s.toList ++ '"' :: rest).takeWhile isStringChar = s.toList := by
    rw [List.takeWhile_append_of_pos hchars, List.takeWhile_cons_of_neg (by decide),
      List.append_nil]
  have hdrop : (s.toList ++ '"' :: rest).dropWhile isStringChar = '"' :: rest := by
    rw [List.dropWhile_append_of_pos hchars, List.dropWhile_cons_of_neg (by decide)]
  simp only [cutString, htake, hdrop, String.ofList_toList, List.cons_append]

/-- A variable is read from its name. -/
theorem cutVariable_text {name : String} (hname : IsName name) (hcs : name.toList = c :: cs)
    (hrest : Parts rest) :
    cutVariable c (cs ++ rest) = { outcome := .ok (.var name), lexeme := c :: cs, rest } := by
  obtain ⟨-, hchars⟩ := hname
  rw [hcs] at hchars
  have hcs' : ∀ d ∈ cs, d.isAlpha = true := fun d hd => hchars d (List.mem_cons_of_mem c hd)
  simp only [cutVariable, takeWhile_of_parts hcs' hrest rfl rfl,
    dropWhile_of_parts hcs' hrest rfl rfl, ← hcs, String.ofList_toList]

/-- A truth value is read from its sign and its text. -/
theorem cutTruth_text (b : Bool) (hrest : Parts rest) :
    cutTruth '@' ((truthText b).toList ++ rest) =
      { outcome := .ok (.truth b), lexeme := '@' :: (truthText b).toList, rest } := by
  obtain ⟨hchars, htrim⟩ := text_truth b
  rw [List.all_eq_true] at hchars
  simp only [cutTruth, takeWhile_of_parts hchars hrest rfl rfl,
    dropWhile_of_parts hchars hrest rfl rfl, htrim, String.ofList_toList,
    truthOfText?_truthText, orFault]

/-- An integer that is not negative is read from its digits. -/
theorem cutInteger_text {n : Int64} (hn : 0 ≤ n.toInt)
    (hcs : Nat.toDigits 10 n.toInt.natAbs = c :: cs) (hrest : Parts rest) :
    cutInteger c (cs ++ rest) = { outcome := .ok (.int n), lexeme := c :: cs, rest } := by
  have hdigits : ∀ d ∈ cs, d.isDigit = true := by
    intro d hd
    have hmem : d ∈ Nat.toDigits 10 n.toInt.natAbs := hcs ▸ List.mem_cons_of_mem c hd
    exact Nat.isDigit_of_mem_toDigits (by decide) (by decide) hmem
  have hread : readInteger false (c :: cs) = some n := by
    rw [readInteger, ← hcs, Nat.ofDigitChars_toDigits (by decide) (by decide)]
    simp only [Bool.false_eq_true, if_false, Int.natAbs_of_nonneg hn, Integer.ofInt?_toInt]
  simp only [cutInteger, takeWhile_of_parts hdigits hrest rfl rfl,
    dropWhile_of_parts hdigits hrest rfl rfl, hread, orFault]

/-- A negative integer is read from its sign and its digits. -/
theorem cutNegative_text {n : Int64} (hn : n.toInt < 0) (hrest : Parts rest) :
    cutNegative '-' (Nat.toDigits 10 n.toInt.natAbs ++ rest) =
      { outcome := .ok (.int n), lexeme := '-' :: Nat.toDigits 10 n.toInt.natAbs, rest } := by
  have hdigits : ∀ d ∈ Nat.toDigits 10 n.toInt.natAbs, d.isDigit = true :=
    fun d hd => Nat.isDigit_of_mem_toDigits (by decide) (by decide) hd
  have hread : readInteger true (Nat.toDigits 10 n.toInt.natAbs) = some n := by
    have hvalue : -(n.toInt.natAbs : Int) = n.toInt := by omega
    rw [readInteger, Nat.ofDigitChars_toDigits (by decide) (by decide)]
    simp only [if_true, hvalue, Integer.ofInt?_toInt]
  simp only [cutNegative, takeWhile_of_parts hdigits hrest rfl rfl,
    dropWhile_of_parts hdigits hrest rfl rfl]
  split
  · next hnil => exact absurd hnil Nat.toDigits_ne_nil
  · simp only [hread, orFault]

/-- Letters come after digits. -/
theorem isDigit_eq_false_of_isAlpha (h : c.isAlpha = true) : c.isDigit = false := by
  have hletter : 'A'.toNat ≤ c.toNat := by
    obtain h | h : c.isUpper = true ∨ c.isLower = true := (Bool.or_eq_true _ _).mp h
    · exact (of_decide_eq_true h).1
    · have hlower : 'a'.toNat ≤ c.toNat := of_decide_eq_true ((Bool.and_eq_true _ _).mp h).1
      exact Nat.le_trans (by decide) hlower
  refine Bool.eq_false_iff.2 fun hdigit => ?_
  have hlast : c.toNat ≤ '9'.toNat := (Char.isDigit_iff_toNat.1 hdigit).2
  exact absurd (Nat.le_trans hletter hlast) (by decide)

/-- A character of a class is none that is not in it. -/
theorem ne_of_class {p : Char → Bool} {d : Char} (hc : p c = true) (hd : p d = false) : c ≠ d := by
  rintro rfl
  rw [hc] at hd
  cases hd

/-- A class without blanks and line ends. -/
theorem not_blank_of_class {p : Char → Bool} (hc : p c = true)
    (hp : ['\n', ' ', '\t', '\r', '\x0c'].all (fun d => !p d) = true) :
    c ≠ '\n' ∧ isBlank c = false := by
  have hne : ∀ d ∈ ['\n', ' ', '\t', '\r', '\x0c'], c ≠ d := by
    intro d hd
    have hd' := List.all_eq_true.1 hp d hd
    exact ne_of_class hc (by simpa using hd')
  simpa [isBlank, and_assoc] using hne

/-- **A token is cut from its text.** -/
theorem cut_spelling {t : Token} (h : t.Spellable) (hrest : Parts rest) :
    ∃ c cs, t.spelling = c :: cs ∧ (c ≠ '\n' ∧ isBlank c = false) ∧
      t.mode.cut c (cs ++ rest) = { outcome := .ok t, lexeme := c :: cs, rest } := by
  cases t with
  | phrase p =>
    obtain ⟨c, cs, hp, hc, hcs, htrim⟩ := text_phrase p
    exact ⟨c, cs, hp, not_blank_of_class hc rfl, cutInstruction_text hp hc hcs htrim hrest⟩
  | int n =>
    rw [Token.spelling, Token.decimal]
    split
    · next hn =>
      exact ⟨'-', _, rfl, by decide, cutNegative_text hn hrest⟩
    · next hn =>
      obtain ⟨c, cs, hcs⟩ := List.exists_cons_of_ne_nil (@Nat.toDigits_ne_nil n.toInt.natAbs 10)
      have hc : c.isDigit = true :=
        Nat.isDigit_of_mem_toDigits (by decide) (by decide) (hcs ▸ List.mem_cons_self)
      refine ⟨c, cs, hcs, not_blank_of_class hc rfl, ?_⟩
      change cutOperand c (cs ++ rest) = _
      rw [cutOperand, if_neg (ne_of_class hc rfl), if_pos hc]
      exact cutInteger_text (Int.not_lt.1 hn) hcs hrest
  | str s =>
    refine ⟨'"', s.toList ++ ['"'], rfl, by decide, ?_⟩
    rw [List.append_assoc]
    exact cutString_text h
  | var name =>
    have hne : name.toList ≠ [] := fun hnil => h.1 (String.toList_eq_nil_iff.1 hnil)
    obtain ⟨c, cs, hcs⟩ := List.exists_cons_of_ne_nil hne
    have hc : c.isAlpha = true := h.2 c (hcs ▸ List.mem_cons_self)
    refine ⟨c, cs, hcs, not_blank_of_class hc rfl, ?_⟩
    have hdigit : ¬ c.isDigit = true := by simp [isDigit_eq_false_of_isAlpha hc]
    change cutOperand c (cs ++ rest) = _
    rw [cutOperand, if_neg (ne_of_class hc rfl), if_neg hdigit, if_neg (ne_of_class hc rfl),
      if_pos hc]
    exact cutVariable_text h hcs hrest
  | truth b => exact ⟨'@', _, rfl, by decide, cutTruth_text b hrest⟩
  | symbol c =>
    obtain ⟨hblank, hquote, hdigit, hletter, hmark⟩ := h
    refine ⟨c, [], rfl, hblank, ?_⟩
    change cutOperand c rest = _
    rw [cutOperand, if_neg hquote, if_neg (Bool.eq_false_iff.1 hdigit)]
    -- a minus sign without digits behind it is a symbol as well
    split
    · have hnone : rest.takeWhile Char.isDigit = [] :=
        @takeWhile_of_parts _ [] _ (fun _ hd => absurd hd List.not_mem_nil) hrest rfl rfl
      simp only [cutNegative, hnone]
    · rw [if_neg (Bool.eq_false_iff.1 hletter)]

/-! ### Whole texts -/

variable {lx next : Lexer} {l : Lexeme}

/-- A token comes first in the stream. -/
theorem stream_of_token (h : lx.scan = (.token l, next)) :
    lx.stream = { next.stream with lexemes := l :: next.stream.lexemes } := by
  rw [stream]
  split
  · next h' =>
    obtain ⟨⟩ := h.symm.trans h'
    rfl
  · next h' => cases h.symm.trans h'
  · next h' => cases h.symm.trans h'

/-- A fault ends the stream. -/
theorem stream_of_error {e : LexError} (h : lx.scan = (.error e, next)) :
    lx.stream = { lexemes := [], fault := some e } := by
  rw [stream]
  split
  · next h' => cases h.symm.trans h'
  · next h' =>
    obtain ⟨⟩ := h.symm.trans h'
    rfl
  · next h' => cases h.symm.trans h'

/-- The end of the text ends the stream without a fault. -/
theorem stream_of_eof {span : Span} (h : lx.scan = (.eof span, next)) :
    lx.stream = { lexemes := [], fault := none } := by
  rw [stream]
  split
  · next h' => cases h.symm.trans h'
  · next h' => cases h.symm.trans h'
  · rfl

/-- The character in front of a token is dropped. -/
theorem skip_separator {t : Token} (hmode : lx.mode = .operand ∨ t.isPhrase = true)
    (hlx : lx.rest = t.separator :: c :: cs) (hc : c ≠ '\n' ∧ isBlank c = false) :
    lx.skip.mode = t.mode ∧ lx.skip.rest = c :: cs := by
  have hreturn : isBlank '\r' = true := rfl
  cases t with
  | phrase p => simp [skip, hlx, Token.separator, skipFrom, hc, Token.mode]
  | _ =>
    have hoperand := hmode.resolve_right Bool.false_ne_true
    simp [skip, hlx, Token.separator, skipFrom, hc, Token.mode, hoperand, hreturn]

/-- A spelled token is scanned, and operands come next. -/
theorem scan_spelling {t : Token} (h : t.Spellable) (hrest : Parts rest)
    (hmode : lx.mode = .operand ∨ t.isPhrase = true)
    (hlx : lx.rest = t.separator :: (t.spelling ++ rest)) :
    ∃ l next, lx.scan = (.token l, next) ∧ l.token = t ∧ next.mode = .operand ∧
      next.rest = rest := by
  obtain ⟨c, cs, hspelling, hblank, hcut⟩ := cut_spelling h hrest
  rw [hspelling, List.cons_append] at hlx
  obtain ⟨hskipMode, hskipRest⟩ := skip_separator hmode hlx hblank
  rw [← hskipMode] at hcut
  refine ⟨_, _, by simp only [scan, hskipRest, hcut]; rfl, rfl, rfl, rfl⟩

/-- **A text that is written for tokens is read as them.** -/
theorem stream_spell {ts : List Token} (hts : ∀ t ∈ ts, t.Spellable)
    (hmode : lx.mode = .operand ∨ ∀ t ∈ ts.head?, t.isPhrase = true) (hlx : lx.rest = spell ts) :
    lx.stream.fault = none ∧ lx.stream.lexemes.map Lexeme.token = ts := by
  induction ts generalizing lx with
  | nil =>
    have heof : ∃ span next, lx.scan = (.eof span, next) := by
      have hskip : lx.skip.rest = [] := by simp [skip, hlx, spell, skipFrom]
      exact ⟨_, _, by simp only [scan, hskip]; rfl⟩
    obtain ⟨span, next, hscan⟩ := heof
    rw [stream_of_eof hscan]
    exact ⟨rfl, rfl⟩
  | cons t ts ih =>
    have hfirst : lx.mode = .operand ∨ t.isPhrase = true := hmode.imp_right fun h => h t rfl
    obtain ⟨l, next, hscan, rfl, hnext, hrest⟩ :=
      scan_spelling (hts t List.mem_cons_self) (parts_spell ts) hfirst hlx
    obtain ⟨hfault, hlexemes⟩ := ih (fun t ht => hts t (List.mem_cons_of_mem _ ht)) (.inl hnext) hrest
    rw [stream_of_token hscan]
    exact ⟨hfault, by rw [List.map_cons, hlexemes]⟩

/-! ### What the lexer gives -/

/-- What is not dropped is no blank. -/
theorem not_blank_of_skip (h : lx.skip.rest = c :: cs) : c ≠ '\n' ∧ isBlank c = false := by
  have hfrom (mode : Mode) (offset line lineStart : Nat) (ds : List Char)
      (h : (skipFrom mode offset line lineStart ds).rest = c :: cs) :
      c ≠ '\n' ∧ isBlank c = false := by
    induction ds generalizing mode offset line lineStart with
    | nil => cases h
    | cons d ds ih =>
      rw [skipFrom] at h
      split at h
      · exact ih _ _ _ _ h
      · next hline =>
        split at h
        · exact ih _ _ _ _ h
        · next hblank =>
          obtain ⟨rfl, -⟩ := List.cons.inj h
          exact ⟨hline, Bool.eq_false_iff.2 hblank⟩
  exact hfrom _ _ _ _ _ h

/-- Separators do not stop a lexer from looking for an instruction. -/
theorem skip_mode (h : lx.mode = .instruction) : lx.skip.mode = .instruction := by
  have hfrom (offset line lineStart : Nat) (ds : List Char) :
      (skipFrom .instruction offset line lineStart ds).mode = .instruction := by
    induction ds generalizing offset line lineStart with
    | nil => rfl
    | cons d ds ih =>
      rw [skipFrom]
      split
      · exact ih _ _ _
      · split
        · exact ih _ _ _
        · rfl
  rw [skip, h]
  exact hfrom _ _ _ _

/-- A token was cut. -/
theorem cut_of_scan (h : lx.scan = (.token l, next)) :
    ∃ c cs, lx.skip.rest = c :: cs ∧ (lx.skip.mode.cut c cs).outcome = .ok l.token := by
  simp only [scan] at h
  split at h
  · cases h
  · next c cs hrest =>
    split at h
    · next token houtcome =>
      obtain ⟨⟩ := h
      exact ⟨c, cs, hrest, houtcome⟩
    · cases h

/-- What is not a fault was made from a value. -/
theorem exists_of_orFault {α : Type} {fault : LexFault} {make : α → Token} {o : Option α}
    {t : Token} (h : orFault fault make o = .ok t) : ∃ a, make a = t := by
  cases o with
  | none => cases h
  | some a => exact ⟨a, Except.ok.inj h⟩

/-- Where an instruction is awaited, a token is a phrase. -/
theorem isPhrase_of_cutInstruction {t : Token} (h : (cutInstruction c cs).outcome = .ok t) :
    t.isPhrase = true := by
  unfold cutInstruction at h
  split at h
  · obtain ⟨p, rfl⟩ := exists_of_orFault h
    rfl
  · cases h

/-- A string that was read can be written. -/
theorem spellable_of_cutString {t : Token} (h : (cutString c cs).outcome = .ok t) :
    t.Spellable := by
  unfold cutString at h
  split at h
  · obtain rfl := Except.ok.inj h
    intro d hd
    rw [String.toList_ofList] at hd
    have hchar := List.all_eq_true.1 List.all_takeWhile d hd
    simpa [isStringChar] using hchar
  · cases h

/-- A variable that was read can be written. -/
theorem spellable_of_cutVariable {t : Token} (hc : c.isAlpha = true)
    (h : (cutVariable c cs).outcome = .ok t) : t.Spellable := by
  obtain rfl := Except.ok.inj h
  constructor
  · intro hempty
    have hnil := congrArg String.toList hempty
    rw [String.toList_ofList] at hnil
    cases hnil
  · intro d hd
    rw [String.toList_ofList] at hd
    rcases List.mem_cons.1 hd with rfl | hd
    · exact hc
    · exact List.all_eq_true.1 List.all_takeWhile d hd

/-- A negative integer that was read can be written. -/
theorem spellable_of_cutNegative {t : Token} (h : (cutNegative '-' cs).outcome = .ok t) :
    t.Spellable := by
  unfold cutNegative at h
  split at h
  · obtain rfl := Except.ok.inj h
    exact ⟨by decide, by decide⟩
  · obtain ⟨n, rfl⟩ := exists_of_orFault h
    exact trivial

/-- An operand that was read can be written. -/
theorem spellable_of_cutOperand {t : Token} (hc : c ≠ '\n' ∧ isBlank c = false)
    (h : (cutOperand c cs).outcome = .ok t) : t.Spellable := by
  unfold cutOperand at h
  split at h
  · exact spellable_of_cutString h
  next hquote =>
  split at h
  · obtain ⟨n, rfl⟩ := exists_of_orFault h
    exact trivial
  next hdigit =>
  split at h
  · next hsign =>
    subst hsign
    exact spellable_of_cutNegative h
  split at h
  · next hletter => exact spellable_of_cutVariable hletter h
  next hletter =>
  split at h
  · obtain ⟨b, rfl⟩ := exists_of_orFault h
    exact trivial
  next hmark =>
  obtain rfl := Except.ok.inj h
  exact ⟨hc, hquote, Bool.eq_false_iff.2 hdigit, Bool.eq_false_iff.2 hletter, hmark⟩

/-- **Names and strings have the right characters.** -/
theorem spellable_of_scan (h : lx.scan = (.token l, next)) : l.token.Spellable := by
  obtain ⟨c, cs, hrest, hcut⟩ := cut_of_scan h
  cases hmode : lx.skip.mode with
  | instruction =>
    rw [hmode] at hcut
    have hphrase := isPhrase_of_cutInstruction hcut
    generalize l.token = t at hphrase
    cases t <;> cases hphrase
    exact trivial
  | operand =>
    rw [hmode] at hcut
    exact spellable_of_cutOperand (not_blank_of_skip hrest) hcut

/-- Every token of a stream can be written. -/
theorem spellable_of_mem_stream (lx : Lexer) : ∀ l ∈ lx.stream.lexemes, l.token.Spellable := by
  fun_induction stream lx with
  | case1 lx l next h tail ih =>
    rintro k (_ | ⟨_, hk⟩)
    · exact spellable_of_scan h
    · exact ih k hk
  | case2 lx => nofun
  | case3 lx => nofun

/-- A source begins with a phrase. -/
theorem isPhrase_of_mem_head? (hmode : lx.mode = .instruction) :
    ∀ l ∈ lx.stream.lexemes.head?, l.token.isPhrase = true := by
  cases hscan : lx.scan with
  | mk found next =>
    cases found with
    | token l =>
      rw [stream_of_token hscan]
      rintro k ⟨⟩
      obtain ⟨c, cs, -, hcut⟩ := cut_of_scan hscan
      rw [skip_mode hmode] at hcut
      exact isPhrase_of_cutInstruction hcut
    | error e =>
      rw [stream_of_error hscan]
      nofun
    | eof span =>
      rw [stream_of_eof hscan]
      nofun

end Lexer

/-- **Which tokens a source can have.** -/
theorem exists_tokenize_iff {ts : List Token} :
    (∃ source ls, tokenize source = .ok ls ∧ ls.map Lexeme.token = ts) ↔
      (∀ t ∈ ts, t.Spellable) ∧ ∀ t ∈ ts.head?, t.isPhrase = true := by
  constructor
  · rintro ⟨source, ls, hls, rfl⟩
    obtain ⟨-, rfl⟩ := tokenize_eq_ok_iff.1 hls
    constructor
    · intro t ht
      obtain ⟨l, hl, rfl⟩ := List.mem_map.1 ht
      exact Lexer.spellable_of_mem_stream _ l hl
    · intro t ht
      rw [List.head?_map] at ht
      obtain ⟨l, hl, rfl⟩ := Option.map_eq_some_iff.1 ht
      exact Lexer.isPhrase_of_mem_head? rfl l hl
  · rintro ⟨hts, hfirst⟩
    have hrest : (Lexer.ofSource (String.ofList (spell ts))).rest = spell ts :=
      String.toList_ofList
    obtain ⟨hfault, hlexemes⟩ := Lexer.stream_spell hts (.inr hfirst) hrest
    exact ⟨_, _, tokenize_eq_ok_iff.2 ⟨hfault, rfl⟩, hlexemes⟩

end Showtime
