/-
# From characters to tokens

A line starts with an instruction and goes on with its operands.  The lexer
keeps the kind it waits for as its `Mode`: a recognised phrase switches to
operands, a line end switches back.

| mode | a token is the longest run of | otherwise |
| --- | --- | --- |
| instruction | upper case letter or `'`, then also commas, spaces, tabs | unexpected character |
| operand | `"`, no quote or line end, closing `"` | unterminated string |
| operand | optional `-`, digits | malformed integer, when out of range |
| operand | letters | |
| operand | `@`, then upper case letters, apostrophes, spaces and tabs | unknown macro |
| operand | | a symbol of one character |

Blanks and line ends separate tokens and are dropped.  `Cut` is one token cut
off the front of the input; `Lexer.scan` adds places and moves on, also past a
piece of text that is no token; `Lexer.pull` stops for good at the first such
piece.
-/

import Showtime.Integer
import Showtime.Text.Blank
import Showtime.Token.Basic

namespace Showtime

/-! ### Why a piece of text is no token -/

/-- What is wrong with a piece of text that is no token. -/
inductive LexFault where
  | unexpectedCharacter
  | unknownInstruction
  | unterminatedString
  | malformedInteger
  | unknownTruth
deriving DecidableEq, Repr

/-- A piece of text that is no token: what is wrong, the text without white
space around it, and its place. -/
structure LexError where
  fault : LexFault
  text : String
  span : Span
deriving DecidableEq, Repr

/-- The sentence for a reader. -/
def LexError.message (e : LexError) : String :=
  match e.fault with
  | .unexpectedCharacter => s!"unexpected character {Text.quote e.text}"
  | .unknownInstruction => s!"unknown instruction {Text.quote e.text}"
  | .unterminatedString => s!"unterminated string {e.text}"
  | .malformedInteger => s!"malformed integer {Text.quote e.text}"
  | .unknownTruth => s!"unknown macro {Text.quote e.text}"

namespace Lexer

/-! ### Classes of characters -/

/-- Separates tokens within a line. -/
def isBlank (c : Char) : Bool :=
  c == ' ' || c == '\t' || c == '\r' || c == '\x0c'

/-- Can start an instruction phrase. -/
def isPhraseStart (c : Char) : Bool :=
  c.isUpper || c == '\''

/-- Can go on in an instruction phrase. -/
def isPhraseChar (c : Char) : Bool :=
  c.isUpper || c == '\'' || c == ',' || c == ' ' || c == '\t'

/-- Can go on in the phrase of a truth value. -/
def isTruthChar (c : Char) : Bool :=
  c.isUpper || c == '\'' || c == ' ' || c == '\t'

/-- Can stand inside a string. -/
def isStringChar (c : Char) : Bool :=
  c != '"' && c != '\n'

/-- The number of bytes of a text. -/
def byteLength : List Char → Nat
  | [] => 0
  | c :: cs => c.utf8Size + byteLength cs

/-- No characters have no bytes. -/
@[simp]
theorem byteLength_nil : byteLength [] = 0 := rfl

/-- A character has the bytes that it is encoded with. -/
@[simp]
theorem byteLength_cons (c : Char) (cs : List Char) :
    byteLength (c :: cs) = c.utf8Size + byteLength cs := rfl

/-- Texts have their bytes one after the other. -/
@[simp]
theorem byteLength_append (cs ds : List Char) :
    byteLength (cs ++ ds) = byteLength cs + byteLength ds := by
  induction cs with
  | nil => simp
  | cons c cs ih => simp [ih, Nat.add_assoc]

/-! ### One token off the front -/

/-- One token, or a piece of text that is none, cut off the front. -/
structure Cut where
  outcome : Except LexFault Token
  lexeme : List Char
  rest : List Char

/-- The integer with these digits, if it fits. -/
def readInteger (negative : Bool) (digits : List Char) : Option Int64 :=
  let magnitude : Int := Nat.ofDigitChars 10 digits 0
  Integer.ofInt? (if negative then -magnitude else magnitude)

/-- The outcome of a reading that may fail in one way. -/
def orFault {α : Type} (fault : LexFault) (make : α → Token) :
    Option α → Except LexFault Token
  | some a => .ok (make a)
  | none => .error fault

/-- Cuts where an instruction is awaited. -/
def cutInstruction (c : Char) (cs : List Char) : Cut :=
  if isPhraseStart c then
    let lexeme := c :: cs.takeWhile isPhraseChar
    { outcome := orFault .unknownInstruction .phrase
        (Phrase.ofText? (String.ofList (Text.trim lexeme)))
      lexeme
      rest := cs.dropWhile isPhraseChar }
  else
    { outcome := .error .unexpectedCharacter, lexeme := [c], rest := cs }

/-- Cuts a string, the opening quote being `c`. -/
def cutString (c : Char) (cs : List Char) : Cut :=
  let body := cs.takeWhile isStringChar
  match cs.dropWhile isStringChar with
  | '"' :: rest =>
    { outcome := .ok (.str (String.ofList body)), lexeme := c :: body ++ ['"'], rest }
  | rest => { outcome := .error .unterminatedString, lexeme := c :: body, rest }

/-- Cuts an integer without a sign, the first digit being `c`. -/
def cutInteger (c : Char) (cs : List Char) : Cut :=
  let digits := c :: cs.takeWhile Char.isDigit
  { outcome := orFault .malformedInteger .int (readInteger false digits)
    lexeme := digits
    rest := cs.dropWhile Char.isDigit }

/-- Cuts a negative integer, the sign being `c`; a sign before no digit is a symbol. -/
def cutNegative (c : Char) (cs : List Char) : Cut :=
  match cs.takeWhile Char.isDigit with
  | [] => { outcome := .ok (.symbol c), lexeme := [c], rest := cs }
  | digits =>
    { outcome := orFault .malformedInteger .int (readInteger true digits)
      lexeme := c :: digits
      rest := cs.dropWhile Char.isDigit }

/-- Cuts a variable, the first letter being `c`. -/
def cutVariable (c : Char) (cs : List Char) : Cut :=
  let name := c :: cs.takeWhile Char.isAlpha
  { outcome := .ok (.var (String.ofList name)), lexeme := name, rest := cs.dropWhile Char.isAlpha }

/-- Cuts a truth value, the marker being `c`. -/
def cutTruth (c : Char) (cs : List Char) : Cut :=
  let words := cs.takeWhile isTruthChar
  { outcome := orFault .unknownTruth .truth (truthOfText? (String.ofList (Text.trim words)))
    lexeme := c :: words
    rest := cs.dropWhile isTruthChar }

/-- Cuts where an operand is awaited. -/
def cutOperand (c : Char) (cs : List Char) : Cut :=
  if c = '"' then cutString c cs
  else if c.isDigit then cutInteger c cs
  else if c = '-' then cutNegative c cs
  else if c.isAlpha then cutVariable c cs
  else if c = '@' then cutTruth c cs
  else { outcome := .ok (.symbol c), lexeme := [c], rest := cs }

/-- The kind of token that the lexer waits for. -/
inductive Mode where
  | instruction
  | operand
deriving DecidableEq, Repr

/-- Cuts in a mode. -/
def Mode.cut : Mode → Char → List Char → Cut
  | .instruction => cutInstruction
  | .operand => cutOperand

/-- A cut loses and invents nothing. -/
theorem lexeme_append_rest (m : Mode) (c : Char) (cs : List Char) :
    (m.cut c cs).lexeme ++ (m.cut c cs).rest = c :: cs := by
  cases m with
  | instruction =>
    simp only [Mode.cut, cutInstruction]
    split <;> simp
  | operand =>
    simp only [Mode.cut, cutOperand]
    split
    · have h := List.takeWhile_append_dropWhile (p := isStringChar) (l := cs)
      simp only [cutString]
      split <;> simp_all
    split
    · simp [cutInteger]
    split
    · have h := List.takeWhile_append_dropWhile (p := Char.isDigit) (l := cs)
      simp only [cutNegative]
      split <;> simp_all
    split
    · simp [cutVariable]
    split
    · simp [cutTruth]
    · simp

/-- A cut takes at least the character that it starts with. -/
theorem length_rest_le (m : Mode) (c : Char) (cs : List Char) :
    (m.cut c cs).rest.length ≤ cs.length := by
  have drop (p : Char → Bool) : (cs.dropWhile p).length ≤ cs.length :=
    (List.dropWhile_sublist p).length_le
  cases m with
  | instruction =>
    simp only [Mode.cut, cutInstruction]
    split
    · exact drop _
    · exact Nat.le_refl _
  | operand =>
    simp only [Mode.cut, cutOperand]
    split
    · have h := drop isStringChar
      simp only [cutString]
      split <;> simp_all
      omega
    split
    · exact drop _
    split
    · simp only [cutNegative]
      split
      · exact Nat.le_refl _
      · exact drop _
    split
    · exact drop _
    split
    · exact drop _
    · exact Nat.le_refl _

end Lexer

/-! ### The lexer -/

/-- A lexer between two tokens: what it waits for, the text ahead, and where
that text starts. -/
structure Lexer where
  mode : Lexer.Mode
  rest : List Char
  /-- Bytes before `rest`. -/
  offset : Nat
  line : Nat
  /-- Bytes before the current line. -/
  lineStart : Nat
deriving DecidableEq, Repr

namespace Lexer

/-- The lexer at the start of a text. -/
def ofChars (cs : List Char) : Lexer :=
  { mode := .instruction, rest := cs, offset := 0, line := 1, lineStart := 0 }

/-- The lexer at the start of a source. -/
def ofSource (source : String) : Lexer :=
  ofChars source.toList

/-- Drops blanks and line ends from the front of the text ahead. -/
def skipFrom (mode : Mode) (offset line lineStart : Nat) : List Char → Lexer
  | [] => { mode, rest := [], offset, line, lineStart }
  | c :: cs =>
    if c = '\n' then skipFrom .instruction (offset + 1) (line + 1) (offset + 1) cs
    else if isBlank c then skipFrom mode (offset + 1) line lineStart cs
    else { mode, rest := c :: cs, offset, line, lineStart }

/-- Moves to the next character that separates no tokens. -/
def skip (lx : Lexer) : Lexer :=
  skipFrom lx.mode lx.offset lx.line lx.lineStart lx.rest

/-- Skipping separators leaves no more characters than there were. -/
theorem length_skipFrom_le (mode : Mode) (offset line lineStart : Nat) (cs : List Char) :
    (skipFrom mode offset line lineStart cs).rest.length ≤ cs.length := by
  induction cs generalizing mode offset line lineStart with
  | nil => simp [skipFrom]
  | cons c cs ih =>
    simp only [skipFrom, List.length_cons]
    split
    · exact Nat.le_succ_of_le (ih ..)
    split
    · exact Nat.le_succ_of_le (ih ..)
    · simp

/-- Skipping leaves no more characters than there were. -/
theorem length_skip_le (lx : Lexer) : lx.skip.rest.length ≤ lx.rest.length :=
  length_skipFrom_le ..

/-- The span of the next `size` bytes. -/
def spanAhead (lx : Lexer) (size : Nat) : Span :=
  { start := lx.offset
    stop := lx.offset + size
    line := lx.line
    column := lx.offset - lx.lineStart + 1 }

/-- What the lexer finds next. -/
inductive Found where
  | token (l : Lexeme)
  | error (e : LexError)
  | eof (span : Span)
deriving DecidableEq, Repr

/-- Moves over a lexeme, into a mode. -/
def advance (lx : Lexer) (mode : Mode) (cut : Cut) : Lexer :=
  { lx with mode, rest := cut.rest, offset := lx.offset + byteLength cut.lexeme }

/-- The next token.  A piece of text that is no token is reported and passed,
and the mode stays; at the end of the input the end is reported again and again. -/
def scan (start : Lexer) : Found × Lexer :=
  let lx := start.skip
  match lx.rest with
  | [] => (.eof (lx.spanAhead 0), lx)
  | c :: cs =>
    let cut := lx.mode.cut c cs
    let span := lx.spanAhead (byteLength cut.lexeme)
    match cut.outcome with
    | .ok token => (.token { token, span }, lx.advance .operand cut)
    | .error fault =>
      (.error { fault, text := String.ofList (Text.trim cut.lexeme), span }, lx.advance lx.mode cut)

/-- A token takes at least one character. -/
theorem scan_lt {lx next : Lexer} {l : Lexeme} (h : lx.scan = (.token l, next)) :
    next.rest.length < lx.rest.length := by
  have hs := length_skip_le lx
  simp only [scan] at h
  split at h
  · simp at h
  · next c cs hr =>
    have hc := length_rest_le lx.skip.mode c cs
    rw [hr, List.length_cons] at hs
    split at h
    · obtain rfl := (Prod.mk.inj h).2
      exact Nat.lt_of_lt_of_le (Nat.lt_succ_of_le hc) hs
    · simp at h

/-- The lexer after its input is given up: nothing ahead, at the end of the
text, on line 1. -/
def giveUp (lx : Lexer) : Lexer :=
  { ofChars [] with offset := lx.offset + byteLength lx.rest }

/-- The next token for a reader that stops at the first fault: `none` at the
end, and after a fault for ever. -/
def pull (lx : Lexer) : Option (Except LexError Lexeme) × Lexer :=
  match lx.scan with
  | (.token l, next) => (some (.ok l), next)
  | (.error e, next) => (some (.error e), next.giveUp)
  | (.eof _, next) => (none, next)

end Lexer

/-! ### Whole texts -/

/-- The tokens of a text, up to the end or to the first fault. -/
structure TokenStream where
  lexemes : List Lexeme
  fault : Option LexError
deriving DecidableEq, Repr

/-- All that the lexer finds from here on. -/
def Lexer.stream (lx : Lexer) : TokenStream :=
  match _h : lx.scan with
  | (.token l, next) =>
    let tail := next.stream
    { tail with lexemes := l :: tail.lexemes }
  | (.error e, _) => { lexemes := [], fault := some e }
  | (.eof _, _) => { lexemes := [], fault := none }
termination_by lx.rest.length
decreasing_by exact Lexer.scan_lt _h

/-- The tokens of a source with their places, or the first fault. -/
def tokenize (source : String) : Except LexError (List Lexeme) :=
  let stream := (Lexer.ofSource source).stream
  match stream.fault with
  | some e => .error e
  | none => .ok stream.lexemes

/-- A source has tokens exactly if its stream has no fault. -/
theorem tokenize_eq_ok_iff {source : String} {ls : List Lexeme} :
    tokenize source = .ok ls ↔
      (Lexer.ofSource source).stream.fault = none ∧
        (Lexer.ofSource source).stream.lexemes = ls := by
  rw [tokenize]
  cases (Lexer.ofSource source).stream.fault <;> simp

end Showtime
