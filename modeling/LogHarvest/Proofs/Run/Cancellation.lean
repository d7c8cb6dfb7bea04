import LogHarvest.Proofs.Run.Delivery
import LogHarvest.Session.Rehearsal

/-!
# What a run that is called off keeps

When the receiver sees that the run was called off, it still takes what it finds in
the channel, until it finds nothing.  A record that its worker still holds at that
moment is lost, although its collector may have handed it over long before: with
more senders than the channel has room for, the receiver is faster than they are.

So what such a run adds is told by the moment at which the channel is empty, and
not by the moment at which the receiver saw that the run was called off.
-/

namespace LogHarvest
namespace Run

def Receiver.hasStopped : Receiver → Bool
  | .draining => true
  | .finishing calledOff => calledOff
  | .returned (.ok outcome) => outcome.calledOff
  | _ => false

namespace State

variable {σ α τ : Type}

def HandedOver (s : State σ α τ) (r : Record) : Prop :=
  ∃ w, (w, r) ∈ s.returned

/-- A collector handed the record over, and its worker does not hold it any more. -/
def Departed (s : State σ α τ) (r : Record) : Prop :=
  ∃ w, (w, r) ∈ s.returned ∧ s.held? w = none

/-- The entry is there at last, and was not there at first. -/
def Added (first last : State σ α τ) (group id : String) (paths : List Path) : Prop :=
  last.status.logsFor group id = some paths ∧ first.status.logsFor group id = none

/-!
## What is kept
-/

theorem added_iff_merged {first last : State σ α τ} (hledger : Ledger first last)
    (group id : String) (paths : List Path) :
    Added first last group id paths ↔ .success group id paths ∈ last.merged := by
  constructor
  · rintro ⟨hlast, hfirst⟩
    rcases (Status.logsFor_of_mergeAll hledger.status group id paths).1 hlast with hold | hnew
    · rw [hfirst] at hold
      cases hold
    · exact hnew
  · intro hnew
    constructor
    · exact (Status.logsFor_of_mergeAll hledger.status group id paths).2 (Or.inr hnew)
    · exact Status.logsFor_eq_none_of_mergeAll hledger.status hnew

theorem mem_merged_iff_departed {s : State σ α τ} (hdelivery : Delivery s)
    (hopen : s.receiver.result? = none) (hempty : s.channel = []) (r : Record) :
    r ∈ s.merged ↔ s.Departed r := by
  have hperm := hdelivery.accounted hopen
  rw [hempty, List.append_nil] at hperm
  exact hperm.mem_iff.symm.trans mem_delivered

/-!
## The moments of a run
-/

variable [Rate.Meter α τ] [LE τ] [DecidableLE τ]

/--
The moments of a run that is called off: the receiver sees it, and later it finds the
channel empty.
-/
structure Stops (setting : Setting σ) (first seen emptied last : State σ α τ) : Prop where
  before : first.Reaches setting seen
  receiving : ∃ left, seen.receiver = .receiving (left + 1)
  calledOff : seen.calledOff = true
  meanwhile : ({ seen with receiver := .draining } : State σ α τ).Reaches setting emptied
  draining : emptied.receiver = .draining
  empty : emptied.channel = []
  after : ({ emptied with receiver := .finishing true } : State σ α τ).Reaches setting last

variable {setting : Setting σ}

structure Stopping (setting : Setting σ) (first s : State σ α τ) : Prop where
  draining : s.receiver = .draining → ∃ seen, first.Reaches setting seen ∧
    (∃ left, seen.receiver = .receiving (left + 1)) ∧ seen.calledOff = true ∧
    ({ seen with receiver := .draining } : State σ α τ).Reaches setting s
  finishing : s.receiver = .finishing true → ∃ seen emptied, Stops setting first seen emptied s
  returned : ∀ tally, s.receiver = .returned (.ok ⟨tally, true⟩) →
    ∃ seen emptied, Stops setting first seen emptied s

theorem stopping_of_not_hasStopped {first s : State σ α τ}
    (hnot : s.receiver.hasStopped = false) : Stopping setting first s := by
  constructor
  case draining =>
    intro hdraining
    rw [hdraining] at hnot
    cases hnot
  case finishing =>
    intro hfinishing
    rw [hfinishing] at hnot
    cases hnot
  case returned =>
    intro tally hreturned
    rw [hreturned] at hnot
    cases hnot

theorem Stops.move {first seen emptied s s' : State σ α τ} {m : Move τ}
    (hstops : Stops setting first seen emptied s) (hstep : s.step setting m = some s') :
    Stops setting first seen emptied s' :=
  { hstops with after := hstops.after.move hstep }

theorem Stopping.of_sameBooks {first s s' : State σ α τ} {m : Move τ}
    (hstopping : Stopping setting first s) (hstep : s.step setting m = some s')
    (hsame : s.SameBooks s') : Stopping setting first s' := by
  constructor
  case draining =>
    intro hdraining
    rw [hsame.receiver] at hdraining
    obtain ⟨seen, hbefore, hreceiving, hcalledOff, hmeanwhile⟩ := hstopping.draining hdraining
    exact ⟨seen, hbefore, hreceiving, hcalledOff, hmeanwhile.move hstep⟩
  case finishing =>
    intro hfinishing
    rw [hsame.receiver] at hfinishing
    obtain ⟨seen, emptied, hstops⟩ := hstopping.finishing hfinishing
    exact ⟨seen, emptied, hstops.move hstep⟩
  case returned =>
    intro tally hreturned
    rw [hsame.receiver] at hreturned
    obtain ⟨seen, emptied, hstops⟩ := hstopping.returned tally hreturned
    exact ⟨seen, emptied, hstops.move hstep⟩

theorem Stopping.of_received {first s s' : State σ α τ} {m : Move τ}
    (hstopping : Stopping setting first s) (hbefore : first.Reaches setting s)
    (hstep : s.step setting m = some s') (hreceived : Received s s') :
    Stopping setting first s' := by
  cases hreceived with
  | counted => exact stopping_of_not_hasStopped rfl
  | stopped hreceiver hcalledOff =>
      refine ⟨?_, nofun, nofun⟩
      intro _
      exact ⟨s, hbefore, ⟨_, hreceiver⟩, hcalledOff, .here⟩
  | deserted => exact stopping_of_not_hasStopped rfl
  | emptied hreceiver hempty =>
      refine ⟨nofun, ?_, nofun⟩
      intro _
      obtain ⟨seen, hfirst, hreceiving, hcalledOff, hmeanwhile⟩ := hstopping.draining hreceiver
      exact ⟨seen, s, hfirst, hreceiving, hcalledOff, hmeanwhile, hreceiver, hempty, .here⟩
  | took hnext _ htook =>
      -- Only a drain has its moments behind it; whoever still receives has seen nothing yet.
      rcases htook.cases_receiver hnext with ⟨left, -, hafter⟩ | ⟨hreceiver, hafter⟩
      · refine stopping_of_not_hasStopped ?_
        rw [hafter]
        rfl
      · obtain ⟨seen, hfirst, hreceiving, hcalledOff, hmeanwhile⟩ := hstopping.draining hreceiver
        refine ⟨?_, ?_, ?_⟩
        · intro _
          exact ⟨seen, hfirst, hreceiving, hcalledOff, hmeanwhile.move hstep⟩
        · intro hfinishing
          rw [hafter] at hfinishing
          cases hfinishing
        · intro tally hreturned
          rw [hafter] at hreturned
          cases hreturned
  | refused => exact stopping_of_not_hasStopped rfl
  | @finished calledOff _ hreceiver hfinished =>
      rcases hfinished.receiver with hok | ⟨path, cause, hfault⟩
      · cases calledOff with
        | false =>
            refine stopping_of_not_hasStopped ?_
            rw [hok]
            rfl
        | true =>
            obtain ⟨seen, emptied, hstops⟩ := hstopping.finishing hreceiver
            refine ⟨?_, ?_, fun _ _ => ⟨seen, emptied, hstops.move hstep⟩⟩
            · intro hdraining
              rw [hok] at hdraining
              cases hdraining
            · intro hfinishing
              rw [hok] at hfinishing
              cases hfinishing
      · refine stopping_of_not_hasStopped ?_
        rw [hfault]
        rfl

theorem stopping_of_reaches {first s : State σ α τ} {left : Nat}
    (hfirst : first.receiver = .receiving left) (hreaches : first.Reaches setting s) :
    Stopping setting first s := by
  induction hreaches with
  | here =>
      refine stopping_of_not_hasStopped ?_
      rw [hfirst]
      rfl
  | move hbefore hstep ih =>
      rcases cases_of_step hstep with ⟨hbeside, -⟩ | ⟨w, hworked⟩ | hreceive
      · exact ih.of_sameBooks hstep hbeside.sameBooks
      · exact ih.of_sameBooks hstep hworked.sameBooks
      · exact ih.of_received hbefore hstep (received_of_receive hreceive)

end State
end Run

namespace Fleet

open Run State

variable {σ : Type} {setting : Setting σ}

/--
A run that ends well after it was called off adds the entries of the records that had
left their workers when the receiver found the channel empty.  These are the records
that had been handed over when the receiver saw that the run was called off just in
case nothing that had been handed over by then is still held, and nothing that was
handed over later has left.
-/
theorem added_iff_departed {stages : List Protocol.Stage} {endings : List String} {f : Fleet σ}
    {folder : Path} {last : State σ Float Rate.Millis} {outcome : Outcome}
    (hfetching : f.Fetching setting stages endings folder last)
    (hresult : last.receiver.result? = some (.ok outcome)) (hcalledOff : outcome.calledOff = true) :
    let first := (f.prepared endings).startRun stages folder
    (∃ seen emptied, Stops setting first seen emptied last) ∧
      ∀ seen emptied, Stops setting first seen emptied last →
        (∀ group id paths, Added first last group id paths ↔
          emptied.Departed (.success group id paths)) ∧
        ((∀ group id paths, Added first last group id paths ↔
            seen.HandedOver (.success group id paths)) ↔
          ∀ r : Record, r.isOk = true → (seen.HandedOver r ↔ emptied.Departed r)) := by
  intro first
  have hreceiver : last.receiver = .returned (.ok ⟨outcome.tally, true⟩) := by
    obtain ⟨tally, calledOff⟩ := outcome
    cases hcalledOff
    exact Receiver.eq_returned_of_result? hresult
  constructor
  · exact (stopping_of_reaches rfl hfetching.reached).returned outcome.tally hreceiver
  · intro seen emptied hstops
    have hledger : Ledger first last := ledger_of_reaches hfetching.reached
    have hclosing := closing_of_finishing rfl hstops.after
    have hmerged : last.merged = emptied.merged := hclosing.merged
    -- From `seen` on the run is one whose receiver drains; what is accounted for is the same.
    have hdelivery : Delivery emptied := by
      have hstart : Delivery first := delivery_start _ _ _ _ _ _ _
      have hseen := hstart.of_reaches hstops.before
      have hstopped : Delivery { seen with receiver := .draining } := by
        refine hseen.of_same rfl rfl (fun w c h => ⟨c, h⟩) (fun _ => rfl) ?_
        intro _
        obtain ⟨left, hleft⟩ := hstops.receiving
        rw [hleft]
        exact ⟨rfl, .refl _⟩
      exact hstopped.of_reaches hstops.meanwhile
    have hkept : ∀ group id paths, Added first last group id paths ↔
        emptied.Departed (.success group id paths) := by
      intro group id paths
      rw [added_iff_merged hledger, hmerged]
      refine mem_merged_iff_departed hdelivery ?_ hstops.empty _
      rw [hstops.draining]
      rfl
    refine ⟨hkept, ?_⟩
    constructor
    · rintro hclaim ⟨group, id, outcome⟩ hok
      cases outcome with
      | error fault => cases hok
      | ok paths => exact (hclaim group id paths).symm.trans (hkept group id paths)
    · intro hcondition group id paths
      exact (hkept group id paths).trans (hcondition (.success group id paths) rfl).symm

/-!
## More senders than room

Twelve members are through with their work, and ten of their records fill the
channel, when the thirteenth calls the run off.  The receiver takes the ten and
finds the channel empty before the other two get their records in.
-/

def crowd : List Instance :=
  (["n00", "n01", "n02", "n03", "n04", "n05", "n06", "n07", "n08", "n09", "n10", "n11",
    "z"].zipIdx 1).map fun (id, n) =>
      ⟨id, "10.0.0." ++ toString n,
        "ec2-10-0-0-" ++ toString n ++ ".us-west-2.compute.amazonaws.com"⟩

def crowded : Fleet Account :=
  let c := FleetConfig.new "demo" "/logs" "/fleetlog.yaml"
  let config := { c with
    limits := ⟨1000, 100, none⟩
    status := crowd.foldl (fun s i => s.addInstance "g" i) c.status }
  ⟨⟨config, .empty, []⟩, .zero, false⟩

def callsOffLast : Setting Account where
  connector := { Script.canned with callOffOnConnect := some ("z", 12) }.connector
  verbose := false
  suffix _ _ := ""
  flaw _ _ := none

def crowdedStart : State Account Float Rate.Millis :=
  (crowded.prepared ["x"]).startRun [] "/logs/demo-logsx"

def untilSeen : List (Move Rate.Millis) :=
  (List.range 12).flatMap (fun w => List.replicate 4 (.work w)) ++
    (List.range 10).map .work ++ List.replicate 3 (.work 12)

def crowdedMoments : Option (State Account Float Rate.Millis × State Account Float Rate.Millis ×
    State Account Float Rate.Millis) :=
  (crowdedStart.steps callsOffLast untilSeen).bind fun seen =>
    ({ seen with receiver := .draining }.steps callsOffLast
        (List.replicate 10 .receive)).bind fun emptied =>
      ({ emptied with receiver := .finishing true }.steps callsOffLast [.receive]).bind
        fun last => some (seen, emptied, last)

theorem crowdedMoments_facts :
    (crowdedMoments.map fun (seen, emptied, last) =>
      ((seen.receiver, seen.calledOff, seen.returned.contains (10, .success "g" "n10" [])),
        (emptied.receiver, emptied.channel),
        (last.receiver, last.status.logsFor "g" "n10"))) =
      some ((.receiving 13, true, true), (.draining, []),
        (.returned (.ok ⟨⟨10, 0, 0⟩, true⟩), none)) := by
  decide +kernel

theorem exists_crowdedMoments :
    ∃ seen emptied last, crowded.Fetching callsOffLast [] ["x"] "/logs/demo-logsx" last ∧
      Stops callsOffLast crowdedStart seen emptied last ∧
      last.receiver.result? = some (.ok ⟨⟨10, 0, 0⟩, true⟩) ∧
      seen.HandedOver (.success "g" "n10" []) ∧ last.status.logsFor "g" "n10" = none := by
  obtain ⟨⟨seen, emptied, last⟩, hmoments, hfacts⟩ :=
    Option.map_eq_some_iff.1 crowdedMoments_facts
  obtain ⟨a, ha, hmoments⟩ := Option.bind_eq_some_iff.1 hmoments
  obtain ⟨b, hb, hmoments⟩ := Option.bind_eq_some_iff.1 hmoments
  obtain ⟨d, hd, hmoments⟩ := Option.bind_eq_some_iff.1 hmoments
  cases hmoments
  simp only [Prod.mk.injEq, List.contains_iff_mem] at hfacts
  obtain ⟨⟨hreceiving, hcalledOff, hreturned⟩, ⟨hdraining, hempty⟩, hresult, hlogs⟩ := hfacts
  have hstops : Stops callsOffLast crowdedStart seen emptied last :=
    ⟨reaches_of_steps ha, ⟨12, hreceiving⟩, hcalledOff, reaches_of_steps hb, hdraining, hempty,
      reaches_of_steps hd⟩
  have hsees : seen.step callsOffLast .receive = some { seen with receiver := .draining } := by
    simp [step, receive, hreceiving, hcalledOff]
  have hfinds : emptied.step callsOffLast .receive =
      some { emptied with receiver := .finishing true } := by
    simp [step, receive, hdraining, hempty]
  have hreaches : crowdedStart.Reaches callsOffLast last :=
    ((hstops.before.move hsees).trans (hstops.meanwhile.move hfinds)).trans hstops.after
  refine ⟨seen, emptied, last, ⟨by decide +kernel, hreaches⟩, hstops, ?_, ⟨10, hreturned⟩, hlogs⟩
  rw [hresult]
  rfl

theorem added_iff_departed_crowded :
    ∃ seen emptied last, Stops callsOffLast crowdedStart seen emptied last ∧
      ∀ group id paths, Added crowdedStart last group id paths ↔
        emptied.Departed (.success group id paths) := by
  obtain ⟨seen, emptied, last, hfetching, hstops, hresult, -, -⟩ := exists_crowdedMoments
  have hmoments := added_iff_departed hfetching hresult rfl
  exact ⟨seen, emptied, last, hstops, (hmoments.2 seen emptied hstops).1⟩

/-- A record that had been handed over in time is not kept. -/
theorem crowded_loses_record :
    ∃ seen emptied last outcome,
      crowded.Fetching callsOffLast [] ["x"] "/logs/demo-logsx" last ∧
      Stops callsOffLast crowdedStart seen emptied last ∧
      last.receiver.result? = some (.ok outcome) ∧ outcome.calledOff = true ∧
      ¬ ∀ group id paths, Added crowdedStart last group id paths ↔
        seen.HandedOver (.success group id paths) := by
  obtain ⟨seen, emptied, last, hfetching, hstops, hresult, hhanded, hlogs⟩ :=
    exists_crowdedMoments
  refine ⟨seen, emptied, last, _, hfetching, hstops, hresult, rfl, ?_⟩
  intro hclaim
  have hadded := (hclaim "g" "n10" []).2 hhanded
  rw [Added, hlogs] at hadded
  cases hadded.1

end Fleet
end LogHarvest
