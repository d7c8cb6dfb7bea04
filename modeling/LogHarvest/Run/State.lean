import LogHarvest.Collect.Collector
import LogHarvest.Fleet.Store
import LogHarvest.Rate.Bucket
import LogHarvest.Session.Connector

/-!
# The state of a run

A run has one worker per member of the fleet and one receiver.  The workers share
the token bucket, and a limited number of session permits if the configuration
limits them; each carries one collector through.  They hand their records in
through a channel with room for ten, and the receiver merges them.

The history is there to be talked about: no step looks at it.
-/

namespace LogHarvest
namespace Run

/-- What a run depends on and does not change. -/
structure Setting (σ : Type) where
  connector : Connector σ
  verbose : Bool
  /-- The random letters for the `n`-th file of a worker, where its name needs some. -/
  suffix : (worker : Nat) → (n : Nat) → String
  /-- Why the `n`-th file of a worker cannot be filled, if it cannot. -/
  flaw : (worker : Nat) → (n : Nat) → Option IoFault

inductive Duty (τ : Type)
  | unstarted (collector : Collector)
  | queued (collector : Collector)
  | active (collector : Collector)
  | waiting (collector : Collector) (due : τ)
  /-- Waits for the answer to a call that is never answered. -/
  | unanswered (collector : Collector)
  | sending (record : Record)
  | ended

def Duty.isEnded {τ : Type} : Duty τ → Bool
  | .ended => true
  | _ => false

structure Outcome where
  tally : Tally
  calledOff : Bool
deriving DecidableEq, Repr

inductive Receiver
  | receiving (left : Nat)
  /-- Takes what is in the channel after the run was called off. -/
  | draining
  | finishing (calledOff : Bool)
  | returned (result : Except FleetFault Outcome)
deriving DecidableEq

def Receiver.result? : Receiver → Option (Except FleetFault Outcome)
  | .returned result => some result
  | _ => none

inductive Call
  | connect
  | run (line : String)
deriving DecidableEq, Repr

inductive Event (τ : Type)
  | called (worker : Nat) (call : Call) (time : τ)
  | opened (worker : Nat)
  | closed (worker : Nat)
  /-- A worker's collector handed its record over; its files went through the sink. -/
  | returned (worker : Nat) (record : Record) (sink : Artifact.Sink)
  | merged (record : Record)
  /-- The receiver had the document of a configuration written, whatever came of that. -/
  | synced (config : FleetConfig)
  | calledOff (time : τ)

def channelSize : Nat := 10

structure State (σ α τ : Type) where
  now : τ
  bucket : Rate.Bucket α τ
  calledOff : Bool
  /-- The permits that are free, if sessions are limited. -/
  permits : Option Nat
  /-- The workers that wait for a permit, the first in front. -/
  queue : List Nat
  workers : List (Duty τ)
  channel : List Record
  receiver : Receiver
  aggregation : Aggregation FleetStore
  remote : σ
  /-- What happened, the latest first. -/
  history : List (Event τ)

namespace State

variable {σ α τ : Type}

def tree (s : State σ α τ) : Tree :=
  s.aggregation.store.tree

def withTree (s : State σ α τ) (tree : Tree) : State σ α τ :=
  { s with
    aggregation :=
      { s.aggregation with store := { s.aggregation.store with tree := tree } } }

def assign (s : State σ α τ) (worker : Nat) (duty : Duty τ) : State σ α τ :=
  { s with workers := s.workers.set worker duty }

def note (s : State σ α τ) (event : Event τ) : State σ α τ :=
  { s with history := event :: s.history }

end State

/-- The collectors of a fleet: groups and members in ascending order. -/
def collectors (status : Status) (stages : List Protocol.Stage) (folder : Path) :
    List Collector :=
  status.groups.entries.flatMap fun (group, g) =>
    g.members.values.map fun i => Collector.new group i stages folder

def State.start {σ α τ : Type} (store : FleetStore) (stages : List Protocol.Stage)
    (folder : Path) (bucket : Rate.Bucket α τ) (now : τ) (calledOff : Bool) (remote : σ) :
    State σ α τ :=
  let workers := (collectors store.config.status stages folder).map Duty.unstarted
  { now := now
    bucket := bucket
    calledOff := calledOff
    permits := store.config.limits.maxSessions.map UInt64.toNat
    queue := []
    workers := workers
    channel := []
    receiver := .receiving workers.length
    aggregation := .start store
    remote := remote
    history := [] }

/-- The state in which one collector starts to work on its own; nobody takes its record. -/
def State.solo {σ α τ : Type} (c : Collector) (tree : Tree) (bucket : Rate.Bucket α τ) (now : τ)
    (calledOff : Bool) (remote : σ) : State σ α τ where
  now := now
  bucket := bucket
  calledOff := calledOff
  permits := none
  queue := []
  workers := [.active c]
  channel := []
  receiver := .returned (.ok ⟨.zero, calledOff⟩)
  aggregation := .start ⟨.new "" "" "", tree, []⟩
  remote := remote
  history := []

def State.recordOf? {σ α τ : Type} (s : State σ α τ) (worker : Nat) : Option Record :=
  s.history.findSome? fun event =>
    match event with
    | .returned i record _ => if i == worker then some record else none
    | _ => none

end Run
end LogHarvest
