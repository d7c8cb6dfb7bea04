import LogHarvest.Session.Fault
import LogHarvest.Tree.Path

/-!
# Why the logs of an instance cannot be collected

A collector gives up at its first failure: at the connection, at a command, at a
file, or at the rate limit if the run is called off while it waits there.
-/

namespace LogHarvest

inductive CollectFault
  | connect (id : String) (cause : SessionFault)
  | command (line : String) (id : String) (cause : SessionFault)
  | createFile (path : Path) (id : String) (cause : IoFault)
  | writeFile (path : Path) (id : String) (cause : IoFault)
  | cancelled (id : String)
deriving DecidableEq, Repr

namespace CollectFault

def message : CollectFault → String
  | .connect id cause => "failed to connect to " ++ id ++ ": " ++ cause.message
  | .command line id cause =>
      "failed to run command " ++ Text.quoted line ++ " for " ++ id ++ ": " ++ cause.message
  | .createFile path id cause =>
      "failed to create a file " ++ Text.quoted path ++ " for " ++ id ++ ": " ++ cause.message
  | .writeFile path id cause =>
      "failed to write to a file " ++ Text.quoted path ++ " for " ++ id ++ ": " ++ cause.message
  | .cancelled id => "rate limiter wait cancelled for " ++ id

def causes : CollectFault → List String
  | .connect _ cause | .command _ _ cause => cause.message :: cause.causes
  | .createFile _ _ cause | .writeFile _ _ cause => [cause.message]
  | .cancelled _ => []

end CollectFault
end LogHarvest
