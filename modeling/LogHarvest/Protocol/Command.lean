import LogHarvest.Text.ShellWord
import LogHarvest.Tree.Path

/-!
# What is asked of an instance

A protocol is a list of stages.  A stage either has its commands fixed, or finds
them out: it runs a listing command and makes one command of each thing listed.
Every command but a listing has a file in which its output is kept.
-/

namespace LogHarvest
namespace Protocol

structure LogCommand where
  command : String
  fileName : String
  fallback : Option String
deriving DecidableEq, Repr

inductive Discovery
  | serviceUnits
  | varLogFiles
deriving DecidableEq, Repr

inductive Stage
  | fixed (commands : List LogCommand)
  | discover (discovery : Discovery)
deriving DecidableEq, Repr

def listUnits : String :=
  "sudo systemctl list-units -t service --no-pager --no-legend --all"

def listLogFiles : String :=
  "sudo find /var/log ! -type d"

namespace Discovery

def command : Discovery → String
  | .serviceUnits => listUnits
  | .varLogFiles => listLogFiles

def label : Discovery → String
  | .serviceUnits => "listing systemd service units"
  | .varLogFiles => "listing /var/log"

end Discovery

/-!
## The default protocol
-/

def defaultCommands : List LogCommand :=
  [⟨"sudo journalctl --no-pager --output=short-precise -k", "kernel.out.log", none⟩,
   ⟨"sudo journalctl --no-pager --output=short-precise", "journal.out.log", none⟩,
   ⟨listUnits, "list-units-systemctl.out.log", none⟩]

def interfaces : LogCommand :=
  ⟨"curl http://localhost:61679/v1/enis", "v1-enis", none⟩

def stagesAround (commands : List LogCommand) : List Stage :=
  [.fixed commands, .discover .serviceUnits, .fixed [interfaces], .discover .varLogFiles]

def defaultStages : List Stage :=
  stagesAround defaultCommands

end Protocol
end LogHarvest
