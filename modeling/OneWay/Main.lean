import OneWay.Cli.Commands

/-!
# The command line program
-/

namespace OneWay

/-- The number of a fault, which may come with either sign. -/
def faultNumber (code : UInt32) : UInt32 := if code < 0x80000000 then code else 0 - code

/-- Whether the name of a file was too long. -/
def isNameTooLong (code : UInt32) : Bool := faultNumber code = 36

/-- The reason of a failed access to a file. -/
def accessFault : IO.Error → String
  | .invalidArgument file code details =>
    if isNameTooLong code then PathFault.nameTooLong.message
    else toString (IO.Error.invalidArgument file code details)
  | .noFileOrDirectory _ code _ =>
    s!"No such file or directory (os error {faultNumber code})"
  | .inappropriateType _ code _ =>
    let what := if faultNumber code = 20 then "Not a directory" else "Is a directory"
    s!"{what} (os error {faultNumber code})"
  | .permissionDenied _ code _ => s!"Permission denied (os error {faultNumber code})"
  | .userError _ => "stream did not contain valid UTF-8"
  | e => toString e

/-- Whether a failed access means that there is no such file. -/
def isMissing : IO.Error → Bool
  | .noFileOrDirectory .. => true
  | .inappropriateType _ code _ => faultNumber code = 20
  | .invalidArgument _ code _ => isNameTooLong code
  | _ => false

/-- The machine that the program runs on. -/
instance : Host IO where
  readFile path := do
    try
      pure (.text (← IO.FS.readFile path))
    catch e => pure (if isMissing e then .missing else .unreadable (accessFault e))
  writeFile path content := do
    try
      IO.FS.writeFile path content
      pure none
    catch e => pure (some (accessFault e))
  print text := do
    let out ← IO.getStdout
    out.putStr text
    out.flush
  printError text := IO.eprint text
  clock := IO.monoMsNow
  entropy := do
    let bytes ← IO.getRandomBytes 8
    pure (bytes.data.foldl (fun n b => n * 256 + b.toUInt64) 0)

end OneWay

/-- Runs the program on its arguments. -/
def main (arguments : List String) : IO UInt32 := OneWay.Cli.execute arguments
