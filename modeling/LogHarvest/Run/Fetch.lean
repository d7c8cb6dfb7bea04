import LogHarvest.Artifact.Archive
import LogHarvest.Artifact.RunFolder
import LogHarvest.Run.Schedule

/-!
# Fetching logs

To fetch logs is to prepare a folder for them, to carry out a run, and to sum up
what it came to.  To download them is to fetch them and then to copy all that the
status records into another folder.

One run at a time has the status to itself: from its first state until its receiver
has returned.  Workers that are not through by then go on whenever somebody waits.
So a `Site` has the fleet with all runs that were begun.
-/

namespace LogHarvest

structure Summary where
  folder : Path
  expected : Nat
  collected : Nat
  failed : Nat
  totalFiles : Nat
  calledOff : Bool
deriving DecidableEq, Repr

structure Fleet (σ : Type) where
  store : FleetStore
  remote : σ
  calledOff : Bool

namespace Run

/-- A run that was begun, with what it depends on. -/
structure Begun (σ : Type) where
  setting : Setting σ
  state : State σ Float Rate.Millis

/-- The state of a run among the files and the hosts of a fleet. -/
def State.amid {σ α τ : Type} (s : State σ α τ) (f : Fleet σ) : State σ α τ :=
  { s with remote := f.remote }.withTree f.store.tree

end Run

structure Site (σ : Type) where
  fleet : Fleet σ
  runs : List (Run.Begun σ)

variable {σ : Type}

namespace Fleet

def folderStart (c : FleetConfig) : String :=
  c.name ++ "-logs"

def exceedsPermits (c : FleetConfig) : Bool :=
  c.limits.maxSessions.any fun n => FleetFault.permitLimit < n.toNat

/-- Checks the configuration and makes the folder and the permits of a run. -/
def prepare (store : FleetStore) (endings : List String) : Except FleetFault Path × FleetStore :=
  let c := store.config
  if !c.enabled then (.error (.disabled c.name), store)
  else
    match c.validate with
    | .error fault => (.error fault, store)
    | .ok () =>
        match store.tree.makeFolders c.logDir with
        | (.error cause, tree) => (.error (.setup c.logDir cause), { store with tree := tree })
        | (.ok (), tree) =>
            match Artifact.allocateFolder tree c.logDir (folderStart c) endings with
            | .error fault => (.error fault, { store with tree := tree })
            | .ok (folder, tree) =>
                (if exceedsPermits c then .error .tooManySessions else .ok folder,
                  { store with tree := tree })

def startRun (f : Fleet σ) (stages : List Protocol.Stage) (folder : Path) :
    Run.State σ Float Rate.Millis :=
  let limits := f.store.config.limits
  .start f.store stages folder (.ofLimits limits.qps limits.burst 0) 0 f.calledOff f.remote

def afterRun {α τ : Type} (s : Run.State σ α τ) : Fleet σ :=
  ⟨s.aggregation.store, s.remote, s.calledOff⟩

end Fleet

/-!
## Runs that share a fleet
-/

namespace Site

def ofFleet (f : Fleet σ) : Site σ := ⟨f, []⟩

/-- No run has the status to itself. -/
def isFree (site : Site σ) : Bool :=
  site.runs.all fun begun => begun.state.receiver.result?.isSome

def begin (site : Site σ) (setting : Run.Setting σ) (stages : List Protocol.Stage)
    (folder : Path) (tree : Tree) : Site σ :=
  let f := { site.fleet with store := { site.fleet.store with tree := tree } }
  ⟨f, site.runs ++ [⟨setting, f.startRun stages folder⟩]⟩

/--
A run goes on to a state.  Files and hosts are as it leaves them; the configuration is
too, if it had the status to itself.
-/
def put (site : Site σ) (k : Nat) (begun : Run.Begun σ) (s : Run.State σ Float Rate.Millis) :
    Site σ :=
  let store :=
    match begun.state.receiver.result? with
    | none => s.aggregation.store
    | some _ => { site.fleet.store with tree := s.tree }
  { fleet := ⟨store, s.remote, site.fleet.calledOff || s.calledOff⟩
    runs := site.runs.set k ⟨begun.setting, s⟩ }

/-- A run goes on as told, among the files and the hosts as they are. -/
def visit (site : Site σ) (k : Nat)
    (go : Run.Setting σ → Run.State σ Float Rate.Millis → Run.State σ Float Rate.Millis) :
    Site σ :=
  match site.runs[k]? with
  | none => site
  | some begun => site.put k begun (go begun.setting (begun.state.amid site.fleet))

def stopAll (site : Site σ) : Site σ :=
  (List.range site.runs.length).foldl (fun site k => site.visit k fun _ s => s.stopAll)
    { site with fleet := { site.fleet with calledOff := true } }

def turn (site : Site σ) (k : Nat) : Site σ :=
  site.visit k fun setting s =>
    (if site.fleet.calledOff then s.stopAll else s).round setting

def round (site : Site σ) : Site σ :=
  (List.range site.runs.length).foldl turn site

def wait (site : Site σ) (delay : Rate.Millis) : Site σ :=
  (List.range site.runs.length).foldl
    (fun site k => site.visit k fun _ s => { s with now := s.now + delay }) site

def nextDelay (site : Site σ) : Option Rate.Millis :=
  (site.runs.filterMap fun begun => begun.state.nextDue.map (· - begun.state.now)).min?

def effort (site : Site σ) : Effort :=
  Effort.sum (site.runs.map fun begun => begun.state.effort)

def idle (interrupts : Run.State σ Float Rate.Millis → Bool) (site : Site σ) :
    Option (Site σ) :=
  let isOver := site.runs.getLast?.any fun begun => interrupts (begun.state.amid site.fleet)
  if !site.fleet.calledOff && isOver then some site.stopAll
  else site.nextDelay.map site.wait

/-- Goes on until no run has the status to itself, or nobody can go on any more. -/
def drive (interrupts : Run.State σ Float Rate.Millis → Bool) (site : Site σ) : Site σ :=
  exhaust effort
    (fun site =>
      if site.isFree then none
      else
        let site' := site.round
        if Effort.Less site'.effort site.effort then some site' else site.idle interrupts)
    site

/--
Fetches the logs of all members.  There is no result if a host never answers and
nobody calls the run off.
-/
def fetch (setting : Run.Setting σ) (stages : List Protocol.Stage) (endings : List String)
    (interrupts : Run.State σ Float Rate.Millis → Bool) (site : Site σ) :
    Option (Except FleetFault Summary) × Site σ :=
  if !site.isFree then (none, site)
  else
    match Fleet.prepare site.fleet.store endings with
    | (.error fault, store) =>
        (some (.error fault), { site with fleet := { site.fleet with store := store } })
    | (.ok folder, store) =>
        let first := site.begin setting stages folder store.tree
        let last := first.drive interrupts
        let summary (begun : Run.Begun σ) (outcome : Run.Outcome) : Summary :=
          ⟨folder, begun.state.workers.length, outcome.tally.collected, outcome.tally.failed,
            outcome.tally.totalFiles, outcome.calledOff⟩
        (last.runs[site.runs.length]?.bind fun begun =>
          begun.state.receiver.result?.map fun result => result.map (summary begun), last)

def download (setting : Run.Setting σ) (stages : List Protocol.Stage) (endings : List String)
    (interrupts : Run.State σ Float Rate.Millis → Bool) (destination : Path) (site : Site σ) :
    Option (Except FleetFault Nat) × Site σ :=
  match site.fetch setting stages endings interrupts with
  | (none, site) => (none, site)
  | (some (.error fault), site) => (some (.error fault), site)
  | (some (.ok _), site) =>
      let store := site.fleet.store
      let c := store.config
      let (result, tree) := Artifact.archive c.status c.path destination store.tree
      (some result, { site with fleet := { site.fleet with store := { store with tree := tree } } })

end Site

/-!
## One fetch alone
-/

namespace Fleet

def fetch (setting : Run.Setting σ) (stages : List Protocol.Stage) (endings : List String)
    (interrupts : Run.State σ Float Rate.Millis → Bool) (f : Fleet σ) :
    Option (Except FleetFault Summary) × Fleet σ :=
  let (result, site) := (Site.ofFleet f).fetch setting stages endings interrupts
  (result, site.fleet)

def download (setting : Run.Setting σ) (stages : List Protocol.Stage) (endings : List String)
    (interrupts : Run.State σ Float Rate.Millis → Bool) (destination : Path) (f : Fleet σ) :
    Option (Except FleetFault Nat) × Fleet σ :=
  let (result, site) := (Site.ofFleet f).download setting stages endings interrupts destination
  (result, site.fleet)

end Fleet
end LogHarvest
