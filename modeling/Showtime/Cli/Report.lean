/-
# What the commands print

A report is what a command leaves behind: its exit code, and what it wrote to
the two standard streams.  The contents of the files that it reads are given,
each as bytes or as the reason why there are none.

| exit code | meaning |
| --- | --- |
| 0 | done |
| 1 | the settings, the source or the run failed |
| 2 | the arguments ask for nothing |
-/

import Showtime.Cli.Request
import Showtime.Json.Printer
import Showtime.Parser.Parse
import Showtime.Program.Stored
import Showtime.Settings

namespace Showtime
namespace Cli

/-- What a command leaves behind. -/
structure Report where
  exitCode : UInt32
  stdout : ByteArray
  stderr : String

/-- The contents of files by name. -/
abbrev Files := String → Except String ByteArray

/-- The text of a file, or why there is none. -/
def readText (files : Files) (name : String) : Except String String :=
  match files name with
  | .error reason => .error s!"{name}: {reason}"
  | .ok bytes =>
    match String.fromUTF8? bytes with
    | some text => .ok text
    | none => .error s!"{name}: {invalidUtf8}"

/-- A command that went well. -/
def success (stdout : String) : Report :=
  { exitCode := 0, stdout := stdout.toUTF8, stderr := "" }

/-- A command that failed before it wrote anything. -/
def failure (message : String) : Report :=
  { exitCode := 1, stdout := .empty, stderr := s!"Error: {message}\n" }

/-- The report of a source that is no program: kind and place on the first line,
then the sentence. -/
def sourceFailure (file : String) (e : CompileError) : Report :=
  failure s!"{e.headline}\n{file}: {e.message}"

/-- What is said of arguments that ask for nothing. -/
def usage : String :=
  "error: expected run, parse or tokens with a file, and the options --debug, --config FILE"

/-- The settings of a request, from its file if it names one. -/
def loadSettings (files : Files) (options : Options) : Except CompileError Settings :=
  match options.config with
  | none => .ok {}
  | some name =>
    match readText files name with
    | .error reason => .error (.config reason)
    | .ok text =>
      match Settings.parse? text with
      | some settings => .ok settings
      | none => .error (.config s!"{name}: not a document of settings")

/-- Runs a source; `none` when the fuel does not suffice. -/
def runReport (fuel : Nat) (settings : Settings) (file source : String) : Option Report :=
  match Program.parse source with
  | .error e => some (sourceFailure file e)
  | .ok program => do
    let job : Job := { program, limit := settings.maxCallDepth }
    let (result, i) ← (Interpreter.fresh Buffer.unbounded Buffer.unbounded).run job fuel
    return {
      exitCode := if result matches .ok _ then 0 else 1
      stdout := i.machine.out.contents
      stderr := (String.fromUTF8? i.diag.contents).getD "" }

/-- Prints the stored form of the program of a source. -/
def parseReport (file source : String) : Report :=
  match Program.parse source with
  | .error e => sourceFailure file e
  | .ok program => success (program.toJson.pretty ++ "\n")

/-- One token with its place, on a line. -/
def tokenLine (l : Lexeme) : String :=
  s!"{l.token.render} @ {l.span.start}..{l.span.stop} ({l.span.render})\n"

/-- Lists the tokens of a source. -/
def tokensReport (file source : String) : Report :=
  match tokenize source with
  | .error e => sourceFailure file e.toCompileError
  | .ok lexemes => success (String.join (lexemes.map tokenLine))

/-- Does what a request asks for; `none` when the fuel does not suffice. -/
def Request.report (fuel : Nat) (files : Files) : Request → Option Report
  | version => some (success "arnoldc 0.1.0\n")
  | misuse => some { exitCode := 2, stdout := .empty, stderr := usage ++ "\n" }
  | perform action file options =>
    match loadSettings files options with
    | .error e => some (failure e.render)
    | .ok settings =>
      match readText files file with
      | .error reason => some (failure reason)
      | .ok source =>
        match action with
        | .run => runReport fuel settings file source
        | .parse => some (parseReport file source)
        | .tokens => some (tokensReport file source)

end Cli
end Showtime
