import LogHarvest.Text.Escaped
import LogHarvest.Tree.Fault

/-!
# Why a session fails

A session is a connection to one instance on which commands are run.  Opening it
can fail, and so can each command.
-/

namespace LogHarvest

inductive SessionFault
  | connect (target : String) (reason : String)
  /-- The command ended with a failure; there is no code if a signal ended it. -/
  | command (line : String) (code : Option Int) (stderr : String)
  | timeout (line : String) (secs : Nat)
  | closed
  | io (cause : IoFault)
deriving DecidableEq, Repr

namespace SessionFault

def message : SessionFault → String
  | .connect target reason => "failed to connect to " ++ target ++ ": " ++ reason
  | .command line code stderr =>
      "command " ++ Text.quoted line ++ " exited with " ++ Text.shownOption code ++ ": " ++
        stderr
  | .timeout line secs =>
      "command " ++ Text.quoted line ++ " timed out after " ++ toString secs ++ "s"
  | .closed => "session closed"
  | .io cause => "IO error: " ++ cause.message

def causes : SessionFault → List String
  | .io cause => [cause.message]
  | _ => []

end SessionFault
end LogHarvest
