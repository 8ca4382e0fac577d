import ScanDigest.Command

/-!
# The program

Reads the files of a call and prints what `Command.run` makes of them. The log is shown down to the
level that the call asks for, a line for each entry. These lines are plain and have no time on them,
and a filter that names parts of the program, or stands in the environment, is not read: what a
`Subscriber` may show beyond that is its own affair.
-/

set_option autoImplicit false

namespace ScanDigest.Main

/-- What a reader of files says about a failure. -/
def ioReason : IO.Error → String
  | .noFileOrDirectory _ _ _ => "No such file or directory (os error 2)"
  | .permissionDenied _ _ _ => "Permission denied (os error 13)"
  | .inappropriateType _ _ _ => "Is a directory (os error 21)"
  | e => toString e

def readFile (path : String) : IO File := do
  try
    let bytes ← IO.FS.readBinFile path
    return ⟨path, .ok bytes.data.toList⟩
  catch e => return ⟨path, .error (ioReason e)⟩

/-- The options of a call, before any file is read. -/
structure Options where
  records : Option String := none
  config : Option String := none
  catalog : Option String := none
  format : Format := .json
  sorts : Bool := true
  /-- The least level that is shown, if any is. -/
  level : Option Level := some .warn

def format? : String → Option Format
  | "json" => some .json
  | "projects" => some .projects
  | "csv" => some .csv
  | _ => none

def level? : String → Option Level
  | "error" | "1" => some .error
  | "warn" | "2" => some .warn
  | "info" | "3" => some .info
  | "debug" | "4" => some .debug
  | "trace" | "5" => some .trace
  | _ => none

/-- How a level stands on a line. -/
def tag : Level → String
  | .error => "ERROR"
  | .warn => " WARN"
  | .info => " INFO"
  | .debug => "DEBUG"
  | .trace => "TRACE"

/-- Shows the entries that reach a level. -/
def subscriber : Option Level → Subscriber
  | none => .off
  | some level =>
    { opening := ""
      shows := LogEntry.reaches level
      line := fun _ e => tag e.level ++ " " ++ e.target ++ ": " ++ e.text ++ "\n" }

/-- An option that has its value after an equals sign, as two arguments. -/
def separate (arg : String) : List String :=
  let cs := arg.toList
  match cs.dropWhile (· != '=') with
  | _ :: value =>
    if arg.startsWith "--" then [String.ofList (cs.takeWhile (· != '=')), String.ofList value]
    else [arg]
  | [] => [arg]

/-- Takes in the arguments of a call. -/
def Options.parse (o : Options) : List String → Except String Options
  | [] => .ok o
  | "--config" :: path :: args | "-c" :: path :: args => parse { o with config := some path } args
  | "--catalog" :: path :: args => parse { o with catalog := some path } args
  | "--log-level" :: name :: args => parse { o with level := level? name.toLower } args
  | "--no-sort" :: args => parse { o with sorts := false } args
  | "--format" :: name :: args =>
    match format? name with
    | some format => parse { o with format } args
    | none => .error s!"invalid value '{name}' for '--format'"
  | arg :: args =>
    if arg.startsWith "-" then .error s!"unexpected argument '{arg}'"
    else if o.records.isSome then .error s!"unexpected argument '{arg}'"
    else parse { o with records := some arg } args

end ScanDigest.Main

open ScanDigest ScanDigest.Main in
def main (args : List String) : IO UInt32 := do
  match Options.parse {} (args.flatMap separate) with
  | .error reason =>
    IO.eprintln s!"error: {reason}"
    return 2
  | .ok o =>
    match o.records with
    | none =>
      IO.eprintln "error: a records file is required"
      return 2
    | some path =>
      let command : Command :=
        { records := ← readFile path
          config := ← o.config.mapM (readFile ·)
          catalog := ← o.catalog.mapM (readFile ·)
          format := o.format
          sorts := o.sorts
          subscriber := subscriber o.level }
      let done := command.run
      IO.print done.stdout
      IO.eprint done.stderr
      return done.exit.toUInt32
