import BaselineAudit.Command.Run

/-!
# The command

Connects runs of the command to the system.
-/

namespace BaselineAudit.Command

/-- What the system says about a file that it cannot read. -/
def fileError : IO.Error → FileError
  | .noFileOrDirectory _ _ _ => .missing
  | .inappropriateType _ code reason | .permissionDenied _ code reason
  | .invalidArgument _ code reason | .resourceExhausted _ code reason
  | .noSuchThing _ code reason | .otherError code reason => .system reason code.toNat
  | e => .system e.toString 0

/-- What an action gives, or why it fails. -/
def attempted {α : Type} (action : IO α) : IO (Except FileError α) := do
  match ← action.toBaseIO with
  | .ok a => pure (.ok a)
  | .error e => pure (.error (fileError e))

/-- The system that the command runs on. -/
def system : Host IO where
  directory := attempted (do pure (← IO.currentDir).toString)
  read := fun path => attempted (IO.FS.readBinFile path)
  input := attempted (do (← IO.getStdin).readBinToEnd)
  env := fun name => IO.getEnv name
  isTerminal := do (← IO.getStdout).isTty

/-- Runs the command and prints what it has to say. -/
def runSystem (arguments : List String) : IO UInt32 := do
  let outcome ← run system arguments
  (← IO.getStdout).putStr outcome.out
  (← IO.getStderr).putStr outcome.err
  pure outcome.status.toUInt32

end BaselineAudit.Command

/-- The command with the arguments that it is called with. -/
def main (arguments : List String) : IO UInt32 := BaselineAudit.Command.runSystem arguments
