/-
# The phrases of the language

Every instruction is one phrase of upper case words.  The table follows a
reference manual: methods, output, variables, arithmetic, logic, branches,
loops.  Two more phrases, written after an `@`, stand for the truth values.
-/

namespace Showtime

/-- An instruction phrase, named for what it does. -/
inductive Phrase where
  | mainOpen
  | mainClose
  | methodOpen
  | methodClose
  | parameter
  | parametersEnd
  | giveBack
  | call
  | callInto
  | print
  | declare
  | initialValue
  | assign
  | assignEnd
  | firstOperand
  | add
  | subtract
  | multiply
  | divide
  | equalTo
  | greaterThan
  | or
  | and
  | branch
  | otherwise
  | branchEnd
  | loop
  | loopEnd
deriving DecidableEq, Repr

namespace Phrase

/-- All phrases, in the order of the manual. -/
def all : List Phrase :=
  [mainOpen, mainClose, methodOpen, methodClose, parameter, parametersEnd, giveBack, call,
    callInto, print, declare, initialValue, assign, assignEnd, firstOperand, add, subtract,
    multiply, divide, equalTo, greaterThan, or, and, branch, otherwise, branchEnd, loop, loopEnd]

/-- No phrase is missing from the list. -/
theorem mem_all (p : Phrase) : p ∈ all := by cases p <;> decide

/-- How the phrase is written. -/
def text : Phrase → String
  | mainOpen => "IT'S SHOWTIME"
  | mainClose => "YOU HAVE BEEN TERMINATED"
  | methodOpen => "LISTEN TO ME VERY CAREFULLY"
  | methodClose => "HASTA LA VISTA, BABY"
  | parameter => "I NEED YOUR CLOTHES YOUR BOOTS AND YOUR MOTORCYCLE"
  | parametersEnd => "GIVE THESE PEOPLE AIR"
  | giveBack => "I'LL BE BACK"
  | call => "DO IT NOW"
  | callInto => "GET YOUR ASS TO MARS"
  | print => "TALK TO THE HAND"
  | declare => "HEY CHRISTMAS TREE"
  | initialValue => "YOU SET US UP"
  | assign => "GET TO THE CHOPPER"
  | assignEnd => "ENOUGH TALK"
  | firstOperand => "HERE IS MY INVITATION"
  | add => "GET UP"
  | subtract => "GET DOWN"
  | multiply => "YOU'RE FIRED"
  | divide => "HE HAD TO SPLIT"
  | equalTo => "YOU ARE NOT YOU YOU ARE ME"
  | greaterThan => "LET OFF SOME STEAM BENNET"
  | or => "CONSIDER THAT A DIVORCE"
  | and => "KNOCK KNOCK"
  | branch => "BECAUSE I'M GOING TO SAY PLEASE"
  | otherwise => "BULLSHIT"
  | branchEnd => "YOU HAVE NO RESPECT FOR LOGIC"
  | loop => "STICK AROUND"
  | loopEnd => "CHILL"

/-- The phrase that is written so. -/
def ofText? (s : String) : Option Phrase :=
  all.find? (·.text == s)

/-- Looking up a written phrase finds it: no two phrases are written alike. -/
@[simp]
theorem ofText?_text (p : Phrase) : ofText? p.text = some p := by
  cases p <;> decide

/-- Only the text of a phrase is read as that phrase. -/
theorem text_of_ofText? {s : String} {p : Phrase} (h : ofText? s = some p) : p.text = s := by
  simpa using List.find?_some h

end Phrase

/-- The phrase of a truth value, without the `@`. -/
def truthText : Bool → String
  | true => "NO PROBLEMO"
  | false => "I LIED"

/-- The truth value that is written so. -/
def truthOfText? (s : String) : Option Bool :=
  [true, false].find? (truthText · == s)

/-- A truth value is read back from its text. -/
@[simp]
theorem truthOfText?_truthText (b : Bool) : truthOfText? (truthText b) = some b := by
  cases b <;> decide

/-- Only the text of a truth value is read as that value. -/
theorem truthText_of_truthOfText? {s : String} {b : Bool} (h : truthOfText? s = some b) :
    truthText b = s := by
  simpa using List.find?_some h

end Showtime
