import LogHarvest.Text.Escaped
import LogHarvest.Tree.Fault
import LogHarvest.Tree.Path
import LogHarvest.Yaml.Fault

/-!
# Why a run ends without a result

The causes for which preparing, carrying out or archiving a run fails, with the
text of each.  Where a file operation is behind the failure, its cause is kept.
-/

namespace LogHarvest

inductive FleetFault
  | disabled (name : String)
  | setup (path : Path) (cause : IoFault)
  | invalidConfig (reason : String)
  | readConfig (path : Path) (cause : IoFault)
  | sync (path : Path) (cause : IoFault)
  | document (cause : Yaml.Fault)
  | unknownGroup (name : String)
  | duplicateInstance (group : String) (id : String)
  | copy (source destination : Path) (cause : IoFault)
  /-- More sessions are to be open at a time than permits can be given: no error, an abort. -/
  | tooManySessions
deriving DecidableEq, Repr

namespace FleetFault

/-- The highest number of permits that a semaphore can be made with. -/
def permitLimit : Nat := 2305843009213693951

def message : FleetFault → String
  | .disabled name => "log collection is disabled for " ++ Text.quoted name
  | .setup path cause => "failed to prepare " ++ Text.quoted path ++ ": " ++ cause.message
  | .invalidConfig reason => "invalid configuration: " ++ reason
  | .readConfig path cause =>
      "failed to read configuration " ++ Text.quoted path ++ ": " ++ cause.message
  | .sync path cause =>
      "failed to sync status to " ++ Text.quoted path ++ ": " ++ cause.message
  | .document cause => "YAML error: " ++ cause.message
  | .unknownGroup name => "group name " ++ Text.quoted name ++ " is unknown"
  | .duplicateInstance group id =>
      "group " ++ Text.quoted group ++ " for instance " ++ Text.quoted id ++
        " logs are redundant"
  | .copy source destination cause =>
      "failed to copy " ++ Text.quoted source ++ " to " ++ Text.quoted destination ++ ": " ++
        cause.message
  | .tooManySessions =>
      "a semaphore may not have more than MAX_PERMITS permits (" ++ toString permitLimit ++ ")"

def causes : FleetFault → List String
  | .setup _ cause | .readConfig _ cause | .sync _ cause | .copy _ _ cause => [cause.message]
  | .document cause => [cause.message]
  | _ => []

end FleetFault
end LogHarvest
