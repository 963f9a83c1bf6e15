import Lox.CommandLine
import Std.Time

/-!
# The program

The program reads the file or the input that its arguments ask for, and writes what comes out.
-/

set_option autoImplicit false
set_option relaxedAutoImplicit false

namespace Lox

/-- The local date and time of the host. -/
def localInstant : IO Instant := do
  let now ← Std.Time.PlainDateTime.now
  pure ⟨now.date.year.toInt, now.date.month.val.toNat, now.date.day.val.toNat,
    now.time.hour.val.toNat, now.time.minute.val.toNat, now.time.second.val.toNat⟩

/-- Why the host refused something, in its own words. Codes that stand for negative numbers are
given by their absolute value. -/
def hostReason : IO.Error → String
  | .noFileOrDirectory _ code details | .permissionDenied _ code details
  | .inappropriateType _ code details | .invalidArgument _ code details =>
    let code := if code < 0x80000000 then code else 0 - code
    details.capitalize ++ " (os error " ++ toString code ++ ")"
  | error => toString error

/-- The bytes of a file, or the reason for which they cannot be read. -/
def readFile (path : String) : IO (Except String ByteArray) := do
  try
    let bytes ← IO.FS.readBinFile path
    pure (.ok bytes)
  catch error => pure (.error (hostReason error))

/-- Carries out what the arguments ask for, and yields the exit code. -/
def runCommand (arguments : List String) : IO UInt32 := do
  let command := Command.ofArguments arguments
  let content ←
    match command with
    | .file path => readFile path
    | _ => pure (.error "")
  let input ←
    match command with
    | .session => (← IO.getStdin).readBinToEnd
    | _ => pure .empty
  match command.perform (Nat.pow 2 62) (← localInstant) (fun _ ↦ content) input with
  | some transcript =>
    IO.print transcript.output
    for report in transcript.reports do
      IO.eprintln report.text
    pure transcript.exitCode
  | none =>
    IO.eprintln "The program did not end."
    pure 70

end Lox

def main (arguments : List String) : IO UInt32 :=
  Lox.runCommand arguments
