import LogHarvest.Run.State

/-!
# The steps of a run

A step is a move of one worker, of the receiver, of the clock, or of whoever calls
the run off.  `State.step` gives the state after a move, or nothing if the move is
not possible.  Any order of possible moves is a way in which a run can go.

A worker that begins after the run was called off does nothing.  Before every call
it takes a token; only a worker that finds none looks whether the run was called
off, before it waits and while it waits.
-/

namespace LogHarvest
namespace Run

inductive Move (τ : Type)
  | tick (time : τ)
  | callOff
  | work (worker : Nat)
  /-- A worker stops waiting at the gate, because the run was called off. -/
  | giveUp (worker : Nat)
  | receive

namespace State

variable {σ α τ : Type}

def stopAll (s : State σ α τ) : State σ α τ :=
  if s.calledOff then s else { s with calledOff := true }.note (.calledOff s.now)

/-!
## Permits
-/

/-- A worker that holds a permit ends; the permit goes to the first in the queue. -/
def release (s : State σ α τ) (worker : Nat) : State σ α τ :=
  let s := s.assign worker .ended
  match s.permits, s.queue with
  | none, _ => s
  | some free, [] => { s with permits := some (free + 1) }
  | some _, next :: queue =>
      match s.workers[next]? with
      | some (.queued c) => { s with queue := queue }.assign next (.active c)
      | _ => { s with queue := queue }

def begin (s : State σ α τ) (worker : Nat) (c : Collector) : State σ α τ :=
  if s.calledOff then s.assign worker .ended
  else
    match s.permits with
    | none => s.assign worker (.active c)
    | some 0 => { s with queue := s.queue ++ [worker] }.assign worker (.queued c)
    | some (free + 1) => { s with permits := some free }.assign worker (.active c)

/-!
## Collectors
-/

def resume (s : State σ α τ) (worker : Nat) (c : Collector) (answer : Response) :
    State σ α τ :=
  let c' := c.resume answer
  match c'.record? with
  | some record =>
      (s.assign worker (.sending record)).note (.returned worker record c'.sink)
  | none => s.assign worker (.active c')

def pass (s : State σ α τ) (worker : Nat) (c : Collector) : State σ α τ :=
  let call :=
    match c.phase with
    | .between errand _ _ => Call.run errand.line
    | _ => Call.connect
  (s.note (.called worker call s.now)).resume worker c .passed

def atGate [Rate.Meter α τ] (s : State σ α τ) (worker : Nat) (c : Collector) : State σ α τ :=
  match s.bucket.allow s.now with
  | (true, bucket) => { s with bucket := bucket }.pass worker c
  | (false, bucket) =>
      if s.calledOff then { s with bucket := bucket }.resume worker c .calledOff
      else
        match bucket.reserve s.now with
        | (none, bucket) => { s with bucket := bucket }.pass worker c
        | (some due, bucket) => { s with bucket := bucket }.assign worker (.waiting c due)

def afterCall {β : Type} (s : State σ α τ) (reply : Reply σ β) : State σ α τ :=
  let after := { s with remote := reply.after.state }.withTree reply.after.tree
  if reply.callsOff then after.stopAll else after

/-- A connector answers a call; `accept` is what the worker does with the result. -/
def answer {β : Type} (s : State σ α τ) (worker : Nat) (c : Collector) (reply : Reply σ β)
    (accept : State σ α τ → Except SessionFault β → State σ α τ) : Option (State σ α τ) :=
  match reply.verdict with
  | .later => none
  | .never => some ((s.afterCall reply).assign worker (.unanswered c))
  | .now result => some (accept (s.afterCall reply) result)

def connected (s : State σ α τ) (worker : Nat) (c : Collector)
    (result : Except SessionFault Unit) : State σ α τ :=
  let s :=
    match result with
    | .ok () => s.note (.opened worker)
    | .error _ => s
  s.resume worker c (.connected result)

def act [Rate.Meter α τ] (setting : Setting σ) (s : State σ α τ) (worker : Nat)
    (c : Collector) : Option (State σ α τ) :=
  let around : Surroundings σ := ⟨s.remote, s.tree⟩
  match c.request with
  | .gate => some (s.atGate worker c)
  | .connect =>
      s.answer worker c (setting.connector.connect worker c.subject around) fun s result =>
        s.connected worker c result
  | .run line =>
      s.answer worker c (setting.connector.run worker c.subject line setting.verbose around)
        fun s result => s.resume worker c (.output result)
  | .save name data =>
      let n := c.sink.claimed.length
      let (result, tree) :=
        c.sink.write (setting.suffix worker n) name data (setting.flaw worker n) s.tree
      some ((s.withTree tree).resume worker c (.saved result))
  | .close =>
      let after := setting.connector.close worker c.subject around
      let s := ({ s with remote := after.state }.withTree after.tree).note (.closed worker)
      some (s.resume worker c .closed)
  | .nothing => none

/-- A worker puts its record into the channel, if there is room; nobody may be listening. -/
def send (s : State σ α τ) (worker : Nat) (record : Record) : Option (State σ α τ) :=
  match s.receiver with
  | .returned _ => some (s.release worker)
  | _ =>
      if s.channel.length < channelSize then
        some ({ s with channel := s.channel ++ [record] }.release worker)
      else none

def work [Rate.Meter α τ] [LE τ] [DecidableLE τ] (setting : Setting σ) (s : State σ α τ)
    (worker : Nat) : Option (State σ α τ) :=
  match s.workers[worker]? with
  | some (.unstarted c) => some (s.begin worker c)
  | some (.active c) => s.act setting worker c
  | some (.waiting c due) => if due ≤ s.now then some (s.pass worker c) else none
  | some (.sending record) => s.send worker record
  | some (.queued _) | some (.unanswered _) | some .ended | none => none

def giveUp [Rate.Meter α τ] (s : State σ α τ) (worker : Nat) : Option (State σ α τ) :=
  match s.workers[worker]? with
  | some (.waiting c _) =>
      if s.calledOff then
        some ({ s with bucket := s.bucket.handBack s.now }.resume worker c .calledOff)
      else none
  | _ => none

/-!
## The receiver
-/

/-- The receiver merges a record; `next` is where it stands if that succeeds. -/
def merge (s : State σ α τ) (record : Record) (next : Receiver) : State σ α τ :=
  match s.aggregation.absorb record with
  | (.ok (), a) =>
      let s := { s with aggregation := a, receiver := next }.note (.merged record)
      if record.isOk then s.note (.synced a.store.config) else s
  | (.error fault, a) => { s with aggregation := a, receiver := .returned (.error fault) }

def finish (s : State σ α τ) (calledOff : Bool) : State σ α τ :=
  let (result, store) := s.aggregation.finish
  { s with
    aggregation := { s.aggregation with store := store }
    receiver := .returned (result.map fun tally => ⟨tally, calledOff⟩) }.note
      (.synced store.config)

/--
The receiver does what it has to do next.  It looks whether the run was called off
before it looks into the channel; when no worker is left that could send, it stops
waiting.
-/
def receive (s : State σ α τ) : Option (State σ α τ) :=
  match s.receiver with
  | .receiving 0 => some { s with receiver := .finishing false }
  | .receiving (left + 1) =>
      if s.calledOff then some { s with receiver := .draining }
      else
        match s.channel with
        | record :: channel =>
            some ({ s with channel := channel }.merge record (.receiving left))
        | [] =>
            if s.workers.all Duty.isEnded then some { s with receiver := .finishing false }
            else none
  | .draining =>
      match s.channel with
      | record :: channel => some ({ s with channel := channel }.merge record .draining)
      | [] => some { s with receiver := .finishing true }
  | .finishing calledOff => some (s.finish calledOff)
  | .returned _ => none

/-!
## Moves
-/

def step [Rate.Meter α τ] [LE τ] [DecidableLE τ] (setting : Setting σ) (s : State σ α τ) :
    Move τ → Option (State σ α τ)
  | .tick time => if s.now ≤ time then some { s with now := time } else none
  | .callOff => some s.stopAll
  | .work worker => s.work setting worker
  | .giveUp worker => s.giveUp worker
  | .receive => s.receive

def steps [Rate.Meter α τ] [LE τ] [DecidableLE τ] (setting : Setting σ) (s : State σ α τ)
    (moves : List (Move τ)) : Option (State σ α τ) :=
  moves.foldlM (fun s move => s.step setting move) s

end State
end Run
end LogHarvest
