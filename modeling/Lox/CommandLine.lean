import Lox.Diagnostic
import Lox.Session
import Lox.Text.Lines
import Lox.Text.WhiteSpace

/-!
# The command line

A `Command` is what the arguments ask for: to run the program in a file, or to take lines from the
standard input as a session. Carrying it out gives a `Transcript`: what the program prints, what is
reported besides, and the exit code. Files and input are given as bytes, and the clock stands still.

A session goes on after a line with errors. It ends at a line that says so, at a line that is no
text, or with the input.

How a terminal edits lines and remembers them, how it draws diagnostics, and what is logged along
the way are left to the host.
-/

set_option autoImplicit false
set_option relaxedAutoImplicit false

namespace Lox

/-- Something to tell the user apart from what the program prints. -/
inductive Report where
  | usage
  | fileExtension
  | inaccessibleFile (path reason : String)
  | failedInput (reason : String)
  | syntaxError (diagnostic : Diagnostic)
  | runtimeError (error : RuntimeError)
deriving DecidableEq, Repr

namespace Report

/-- A report in words. -/
def text : Report → String
  | usage => "Usage: mlox [run <filename.lox> | repl]"
  | fileExtension => "Invalid file extension. Only .lox files are allowed."
  | inaccessibleFile path reason => "Failed to access " ++ path ++ ": " ++ reason
  | failedInput reason => "REPL failed: " ++ reason
  | syntaxError diagnostic => diagnostic.text
  | runtimeError error => "Runtime error: " ++ error.message

/-- The reason given for bytes that are not a text. -/
def invalidText : String := "stream did not contain valid UTF-8"

/-- The reports about a source text that did not run to its end. -/
def ofSourceError : SourceError → List Report
  | .unreadable errors => errors.map fun error ↦ syntaxError (.ofError error)
  | .runtime error => [runtimeError error]

end Report

/-- Everything that comes out of carrying out a command. -/
structure Transcript where
  exitCode : UInt32
  output : String
  reports : List Report

namespace Transcript

/-- A command that is refused. -/
def refusal (exitCode : UInt32) (report : Report) : Transcript := ⟨exitCode, "", [report]⟩

/-- A transcript with some more reports at its beginning. -/
def precededBy (reports : List Report) (transcript : Transcript) : Transcript :=
  { transcript with reports := reports ++ transcript.reports }

end Transcript

/-- The exit code after a source text that did not run to its end. -/
def SourceError.exitCode : SourceError → UInt32
  | unreadable _ => 65
  | runtime _ => 70

/-- Runs the program in a file, unless the bound is exhausted. -/
def runFile (bound : Nat) (interpreter : Interpreter) (path : String)
    (content : Except String ByteArray) : Option Transcript :=
  match content with
  | .error reason => some (.refusal 66 (.inaccessibleFile path reason))
  | .ok bytes =>
    match String.fromUTF8? bytes with
    | none => some (.refusal 66 (.inaccessibleFile path Report.invalidText))
    | some source =>
      match (runSource bound source).run interpreter with
      | .done _ final => some ⟨0, final.output, []⟩
      | .failed error final => some ⟨error.exitCode, final.output, Report.ofSourceError error⟩
      | .exhausted => none

/-- Whether a line ends a session. -/
def isFarewell (line : String) : Bool := trimmed line = ":quit" || trimmed line = ":q"

/-- Runs lines in one session, unless the bound is exhausted. -/
def runLines (bound : Nat) (interpreter : Interpreter) : List (Option String) → Option Transcript
  | [] => some ⟨0, interpreter.output, []⟩
  | none :: _ => some ⟨66, interpreter.output, [.failedInput Report.invalidText]⟩
  | some line :: others =>
    if isFarewell line then some ⟨0, interpreter.output, []⟩
    else if trimmed line = "" then runLines bound interpreter others
    else
      match (runLine bound line).run interpreter with
      | .done _ next => runLines bound next others
      | .failed error next =>
        (runLines bound next others).map (·.precededBy (Report.ofSourceError error))
      | .exhausted => none

/-! ### Commands -/

/-- What the arguments ask for. -/
inductive Command where
  | session
  | file (path : String)
  | wrongExtension
  | unknown
deriving DecidableEq, Repr

namespace Command

/-- What the arguments ask for. -/
def ofArguments : List String → Command
  | [] | ["repl"] => session
  | ["run", path] => if path.endsWith ".lox" then file path else wrongExtension
  | _ => unknown

/-- Carries out a command with the bytes of a file and of the standard input, unless the bound is
exhausted. -/
def perform (bound : Nat) (now : Instant) (read : String → Except String ByteArray)
    (input : ByteArray) : Command → Option Transcript
  | session => runLines bound (.standard now) (linesOfBytes input)
  | file path => runFile bound (.standard now) path (read path)
  | wrongExtension => some (.refusal 64 .fileExtension)
  | unknown => some (.refusal 64 .usage)

end Command

end Lox
