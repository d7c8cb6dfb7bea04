import LogHarvest.Cli.Arguments
import LogHarvest.Cli.Environment
import LogHarvest.Cli.Report
import LogHarvest.Run.Fetch
import LogHarvest.Session.Ssh

/-!
# The command

The command reads its arguments and the environment, loads the configuration and
fetches the logs of the fleet.  If a folder for copies is named, everything that is
recorded is copied there; if not, the run is summed up.
-/

namespace LogHarvest
namespace Cli

inductive Outcome
  | answered (request : Request)
  | misused (fault : UsageFault)
  | failed (concern : Concern) (fault : FleetFault)
  | fetched (summary : Summary)
  | downloaded (files : Nat)
  /-- The program gave up without an error of its own. -/
  | aborted (fault : FleetFault)
  | stuck
deriving DecidableEq, Repr

def Outcome.exitCode : Outcome → Nat
  | .answered _ | .fetched _ | .downloaded _ => 0
  | .failed .. | .stuck => 1
  | .misused _ => 2
  | .aborted _ => 101

def Outcome.ofFault (concern : Concern) (fault : FleetFault) : Outcome :=
  match fault with
  | .tooManySessions => .aborted fault
  | _ => .failed concern fault

/-- What a command needs of the system: programs, and texts that name nothing so far. -/
structure Supply (σ : Type) where
  launch : Launcher σ
  /-- The `n`-th text that a collector puts into names that are too long. -/
  suffix : (worker n : Nat) → String
  /-- Endings for the name of the run's folder. -/
  endings : List String

variable {σ : Type}

def runFleet (supply : Supply σ) (artifacts : Option Path) (f : Fleet σ) : Outcome × Fleet σ :=
  let c := f.store.config
  let setting : Run.Setting σ :=
    { connector := Ssh.connector supply.launch c.remote
      verbose := c.verbose
      suffix := supply.suffix
      flaw := fun _ _ => none }
  match artifacts with
  | none =>
      let (result, f) := f.fetch setting Protocol.defaultStages supply.endings fun _ => false
      match result with
      | none => (.stuck, f)
      | some (.error fault) => (.ofFault .fetching fault, f)
      | some (.ok summary) => (.fetched summary, f)
  | some folder =>
      let (result, f) :=
        f.download setting Protocol.defaultStages supply.endings (fun _ => false) folder
      match result with
      | none => (.stuck, f)
      | some (.error fault) => (.ofFault .downloading fault, f)
      | some (.ok files) => (.downloaded files, f)

def wholeEnvironment (environment : Environment) (t : Tree) : Environment :=
  match t.read environmentFile with
  | .ok content => environment.withFile content
  | .error _ => environment

def configPath (config : Option String) (environment : Environment) (t : Tree) : Path :=
  FleetConfig.choosePath config ((wholeEnvironment environment t).lookup configName)

def run (supply : Supply σ) (arguments : List String) (environment : Environment)
    (w : Surroundings σ) : Outcome × Surroundings σ :=
  match Request.ofArguments arguments with
  | .error fault => (.misused fault, w)
  | .ok (.run config artifacts) =>
      let path := configPath config environment w.tree
      match FleetConfig.load w.tree path with
      | .error fault => (.failed (.loading path) fault, w)
      | .ok c =>
          let (outcome, f) := runFleet supply artifacts ⟨⟨c, w.tree, []⟩, w.state, false⟩
          (outcome, ⟨f.remote, f.store.tree⟩)
  | .ok request => (.answered request, w)

/--
The files that a command looks at, as far as the files in the tree tell: the
configuration names the program that opens sessions, and the logs so far.
-/
def filesNeeded (arguments : List String) (environment : Environment) (t : Tree) : List Path :=
  match Request.ofArguments arguments with
  | .ok (.run config _) =>
      let path := configPath config environment t
      let named :=
        match FleetConfig.load t path with
        | .ok c => c.remote.program :: c.status.allPaths
        | .error _ => []
      environmentFile :: path :: named
  | _ => []

end Cli
end LogHarvest
