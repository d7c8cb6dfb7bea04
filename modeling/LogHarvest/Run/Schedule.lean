import LogHarvest.Collect.Effort
import LogHarvest.Run.Step

/-!
# One order of the moves

A run can go in many ways; this is the one that the program takes.  The workers
take turns, each until it has to wait for something: a permit, the gate, the
channel, or a file that is to be written.  Then it is the receiver's turn.  When
nobody can go on, the clock moves to the next time at which somebody can.

Whoever may interrupt the run does so only when nobody can go on.
-/

namespace LogHarvest
namespace Run

def Duty.effort {τ : Type} [LE τ] [DecidableLE τ] (now : τ) : Duty τ → Effort
  | .unstarted c => c.effort + .ofSteps 4
  | .queued c => c.effort + .ofSteps 3
  | .active c => c.effort + .ofSteps 2
  | .waiting c due => c.effort + .ofSteps (if due ≤ now then 0 else 1)
  | .sending _ => .ofSteps 2
  | .unanswered _ | .ended => .zero

/-- The steps that are left to the receiver, but for records in the channel. -/
def Receiver.steps : Receiver → Nat
  | .receiving left => left + 3
  | .draining => 2
  | .finishing _ => 1
  | .returned _ => 0

namespace State

variable {σ α τ : Type} [Rate.Meter α τ] [LE τ] [DecidableLE τ]

def effort (s : State σ α τ) : Effort :=
  Effort.sum (s.workers.map fun duty => duty.effort s.now) +
    .ofSteps (s.receiver.steps + s.channel.length + if s.calledOff then 0 else 1)

/-!
## Turns
-/

def isSaving (s : State σ α τ) (worker : Nat) : Bool :=
  match s.workers[worker]? with
  | some (.active c) =>
      match c.request with
      | .save .. => true
      | _ => false
  | _ => false

/-- The worker's next move; one that may give up does so. -/
def nextMove (setting : Setting σ) (s : State σ α τ) (worker : Nat) : Option (State σ α τ) :=
  (s.giveUp worker).orElse fun _ => s.work setting worker

/-- A worker's turn: it goes on until it has to wait, or comes to a file. -/
def turn (setting : Setting σ) (s : State σ α τ) (worker : Nat) : State σ α τ :=
  let s := if s.isSaving worker then (s.work setting worker).getD s else s
  exhaust effort (fun s => if s.isSaving worker then none else s.nextMove setting worker) s

def round (setting : Setting σ) (s : State σ α τ) : State σ α τ :=
  exhaust effort receive ((List.range s.workers.length).foldl (fun s i => s.turn setting i) s)

/-!
## The whole run
-/

def nextDue (s : State σ α τ) : Option τ :=
  s.workers.foldl
    (fun earliest duty =>
      match duty, earliest with
      | .waiting _ due, none => some due
      | .waiting _ due, some time => if time ≤ due then some time else some due
      | _, _ => earliest)
    none

def idle (interrupts : State σ α τ → Bool) (s : State σ α τ) : Option (State σ α τ) :=
  if !s.calledOff && interrupts s then some s.stopAll
  else s.nextDue.bind fun due => if s.now ≤ due then some { s with now := due } else none

def drive (setting : Setting σ) (interrupts : State σ α τ → Bool) (s : State σ α τ) :
    State σ α τ :=
  exhaust effort
    (fun s =>
      let s' := s.round setting
      if Effort.Less s'.effort s.effort then some s' else s.idle interrupts)
    s

end State
end Run
end LogHarvest
