/-
# The program

Reads the files that the arguments name, does what they ask for, and writes what
that leaves behind.
-/

import Showtime.Cli.Report

namespace Showtime

/-- Why a file could not be read, in the words of the system. -/
def readFailure : IO.Error → String
  | .noFileOrDirectory .. => "No such file or directory (os error 2)"
  | .permissionDenied .. => "Permission denied (os error 13)"
  | .inappropriateType .. => "Is a directory (os error 21)"
  | e => toString e

/-- Reads a file. -/
def readFile (name : String) : IO (Except String ByteArray) := do
  try
    return .ok (← IO.FS.readBinFile name)
  catch e =>
    return .error (readFailure e)

/-- The contents of the files of these names, as they are now. -/
def readFiles (names : List String) : IO Cli.Files := do
  let found ← names.mapM fun name => return (name, ← readFile name)
  return fun name =>
    match found.find? (·.1 == name) with
    | some (_, contents) => contents
    | none => .error "not read"

end Showtime

open Showtime in
/-- The entry point. -/
def main (args : List String) : IO UInt32 := do
  let request := Cli.Request.ofArgs args
  match request.report ampleFuel (← readFiles request.files) with
  | none =>
    IO.eprintln "Error: out of fuel"
    return 1
  | some report =>
    (← IO.getStdout).write report.stdout
    IO.eprint report.stderr
    return report.exitCode
