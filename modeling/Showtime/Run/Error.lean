/-
# Errors of a run

Why a run ends early.  Every error ends the whole run.
-/

namespace Showtime

/-- Why a run ends early. -/
inductive RuntimeError where
  /-- No scope in sight declares the name. -/
  | undefinedVariable (name : String)
  /-- The target of an assignment is a literal. -/
  | nonVariableTarget (got : String)
  /-- An assignment does not start with a first operand, or goes on with
  something that is no fold operator. -/
  | malformedAssignment (detail : String)
  /-- A conditional does not consist of a true branch and at most a false one. -/
  | malformedConditional
  | divisionByZero
  | unknownMethod (name : String)
  /-- The number of arguments is not the number of parameters. -/
  | arityMismatch (name : String) (expected got : Nat)
  /-- A statement that means something only inside another one. -/
  | unknownInstruction (phrase : String)
  | typeError (expected got : String)
  | missingOperand (phrase : String)
  /-- More calls are active than allowed. -/
  | callDepthExceeded (limit : Nat)
  /-- Writing to a sink failed. -/
  | io (message : String)
deriving DecidableEq, Repr

namespace RuntimeError

/-- The sentence for a reader. -/
def message : RuntimeError → String
  | undefinedVariable name => s!"undefined variable: {name}"
  | nonVariableTarget got => s!"assignment target must be a variable, got {got}"
  | malformedAssignment detail => s!"malformed assignment block: {detail}"
  | malformedConditional => "malformed conditional block: missing true branch"
  | divisionByZero => "division by zero"
  | unknownMethod name => s!"unknown method: {name}"
  | arityMismatch name expected got => s!"method {name} expects {expected} argument(s), got {got}"
  | unknownInstruction phrase => s!"unexpected instruction here: {phrase}"
  | typeError expected got => s!"type error: expected {expected}, got {got}"
  | missingOperand phrase => s!"missing operand for {phrase}"
  | callDepthExceeded limit => s!"call depth exceeded: more than {limit} nested calls"
  | io message => s!"IO error: {message}"

/-- The line that reports the error. -/
def render (e : RuntimeError) : String :=
  "Runtime error: " ++ e.message

end RuntimeError
end Showtime
