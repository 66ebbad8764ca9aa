/-
# The command line

`run FILE`, `parse FILE` and `tokens FILE`, with the options `--debug` and
`--config FILE` before or after the command, each at most once on either side;
and `--version`.  Where both sides name a file of settings, the one after the
command counts.

The arguments are read from left to right.  Options stop at the first argument
that is none; a `--` says that the next argument is a file even if it looks like
an option.
-/

namespace Showtime
namespace Cli

/-- What is done with a source. -/
inductive Action where
  | run
  | parse
  | tokens
deriving DecidableEq, Repr

/-- The action of a command. -/
def Action.ofName? : String → Option Action
  | "run" => some .run
  | "parse" => some .parse
  | "tokens" => some .tokens
  | _ => none

/-- The options on one side of the command. -/
structure Options where
  debug : Bool := false
  config : Option String := none
deriving DecidableEq, Repr

/-- The options of both sides: those after the command count first. -/
def Options.merge (before after : Options) : Options :=
  { debug := before.debug || after.debug, config := after.config <|> before.config }

/-- What the arguments ask for. -/
inductive Request where
  | version
  | perform (action : Action) (file : String) (options : Options)
  /-- The arguments ask for nothing. -/
  | misuse
deriving DecidableEq, Repr

/-- The argument is an option, known or not. -/
def looksLikeOption (arg : String) : Bool :=
  arg.startsWith "-" && arg != "-"

/-- Sets the file of settings, once. -/
def Options.setConfig? (o : Options) (file : String) : Option Options :=
  if o.config.isSome || file.isEmpty then none else some { o with config := some file }

/-- How a file of settings is named in one argument. -/
def configMark : String := "--config="

/-- Takes options off the front of the arguments; `none` when one is wrong. -/
def takeOptions (o : Options) : List String → Option (Options × List String)
  | [] => some (o, [])
  | "--debug" :: rest => if o.debug then none else takeOptions { o with debug := true } rest
  | ["--config"] => none
  | "--config" :: file :: rest =>
    if looksLikeOption file then none
    else match o.setConfig? file with
      | some o => takeOptions o rest
      | none => none
  | arg :: rest =>
    if arg.startsWith configMark then
      match o.setConfig? (String.ofList (arg.toList.drop configMark.length)) with
      | some o => takeOptions o rest
      | none => none
    else some (o, arg :: rest)

/-- Takes the file and the options of a command. -/
def takeFile? (args : List String) : Option (String × Options) := do
  let (options, rest) ← takeOptions {} args
  match rest with
  | ["--", file] => some (file, options)
  | file :: rest =>
    if looksLikeOption file then none
    else
      match ← takeOptions options rest with
      | (options, []) => some (file, options)
      | (options, ["--"]) => some (file, options)
      | _ => none
  | [] => none

/-- What the arguments after a command ask for. -/
def performRequest (action : Action) (before : Options) (args : List String) : Request :=
  match takeFile? args with
  | some (file, after) =>
    if file.isEmpty then .misuse else .perform action file (before.merge after)
  | none => .misuse

/-- What the arguments ask for. -/
def Request.ofArgs (args : List String) : Request :=
  match takeOptions {} args with
  | none => .misuse
  | some (_, []) => .misuse
  | some (options, arg :: rest) =>
    if arg = "--version" || arg.startsWith "-V" then .version
    else
      match Action.ofName? arg with
      | some action => performRequest action options rest
      | none => .misuse

/-- The files that a request reads, in order. -/
def Request.files : Request → List String
  | perform _ file options => options.config.toList ++ [file]
  | version => []
  | misuse => []

end Cli
end Showtime
