import LogHarvest.Proofs.Fleet.Absorbing
import LogHarvest.Proofs.Run.Moves

/-!
# The receiver's books

Only the receiver changes the status and the counts, and it does so by merging
records one at a time.  `Ledger` says what that comes to in every state of a run:
the status is the first one with the merged records added, the counts are theirs,
and the documents that were written have lost no entry on the way.

When the receiver has returned, nothing of this changes any more.
-/

namespace LogHarvest
namespace Run

variable {σ α τ : Type}

def Receiver.afterRecord : Receiver → Receiver
  | .receiving (left + 1) => .receiving left
  | receiver => receiver

theorem Receiver.eq_returned_of_result? {receiver : Receiver}
    {result : Except FleetFault Outcome} (hresult : receiver.result? = some result) :
    receiver = .returned result := by
  cases receiver with
  | returned other =>
      cases hresult
      rfl
  | _ => cases hresult

namespace State

def next? (s : State σ α τ) : Option Record :=
  match s.receiver with
  | .receiving (_ + 1) => if s.calledOff then none else s.channel.head?
  | .draining => s.channel.head?
  | _ => none

theorem cases_of_next? {s : State σ α τ} {r : Record} (hnext : s.next? = some r) :
    s.channel.head? = some r ∧
      ((∃ left, s.receiver = .receiving (left + 1) ∧ s.receiver.afterRecord = .receiving left) ∨
        s.receiver = .draining ∧ s.receiver.afterRecord = .draining) := by
  unfold next? at hnext
  split at hnext
  · rename_i left hreceiver
    split at hnext
    · cases hnext
    · exact ⟨hnext, Or.inl ⟨left, hreceiver, by rw [hreceiver]; rfl⟩⟩
  · rename_i hreceiver
    exact ⟨hnext, Or.inr ⟨hreceiver, by rw [hreceiver]; rfl⟩⟩
  · cases hnext

theorem open_of_next? {s : State σ α τ} {r : Record} (hnext : s.next? = some r) :
    s.receiver.result? = none := by
  rcases (cases_of_next? hnext).2 with ⟨left, hreceiver, -⟩ | ⟨hreceiver, -⟩
  · rw [hreceiver]
    rfl
  · rw [hreceiver]
    rfl

def tally (s : State σ α τ) : Tally :=
  s.aggregation.tally

def documented (r : Record) (config : FleetConfig) : List FleetConfig :=
  if r.isOk then [config] else []

/-!
## The receiver's moves
-/

structure Took (s : State σ α τ) (r : Record) (status : Status) (s' : State σ α τ) : Prop where
  workers : s'.workers = s.workers
  channel : s.channel = r :: s'.channel
  receiver : s'.receiver = s.receiver.afterRecord
  calledOff : s'.calledOff = s.calledOff
  remote : s'.remote = s.remote
  tally : s'.tally = s.tally.add r
  config : s'.config = { s.config with status := status }
  filed : s'.filed = s.filed
  tree : Rewritten s.tree s'.tree
  merged : s'.merged = r :: s.merged
  synced : s'.synced = documented r s'.config ++ s.synced

theorem Took.cases_receiver {s s' : State σ α τ} {r : Record} {status : Status}
    (htook : Took s r status s') (hnext : s.next? = some r) :
    (∃ left, s.receiver = .receiving (left + 1) ∧ s'.receiver = .receiving left) ∨
      s.receiver = .draining ∧ s'.receiver = .draining := by
  rw [htook.receiver]
  exact (cases_of_next? hnext).2

structure Finished (s : State σ α τ) (calledOff : Bool) (s' : State σ α τ) : Prop where
  workers : s'.workers = s.workers
  channel : s'.channel = s.channel
  receiver : s'.receiver = .returned (.ok ⟨s.tally, calledOff⟩) ∨
    ∃ path cause, s'.receiver = .returned (.error (.sync path cause))
  calledOff : s'.calledOff = s.calledOff
  remote : s'.remote = s.remote
  tally : s'.tally = s.tally
  config : s'.config = s.config
  filed : s'.filed = s.filed
  tree : Rewritten s.tree s'.tree
  merged : s'.merged = s.merged
  synced : s'.synced = s'.config :: s.synced

/-- What the receiver's move can lead to. -/
inductive Received (s : State σ α τ) : State σ α τ → Prop
  /-- All records were taken. -/
  | counted (hreceiver : s.receiver = .receiving 0) :
      Received s { s with receiver := .finishing false }
  /-- The receiver sees that the run was called off. -/
  | stopped {left : Nat} (hreceiver : s.receiver = .receiving (left + 1))
      (hcalledOff : s.calledOff = true) : Received s { s with receiver := .draining }
  /-- Nobody is left who could send a record. -/
  | deserted {left : Nat} (hreceiver : s.receiver = .receiving (left + 1))
      (hempty : s.channel = []) (hended : ∀ duty ∈ s.workers, duty = .ended) :
      Received s { s with receiver := .finishing false }
  | emptied (hreceiver : s.receiver = .draining) (hempty : s.channel = []) :
      Received s { s with receiver := .finishing true }
  | took {r : Record} {status : Status} {s' : State σ α τ} (hnext : s.next? = some r)
      (hmerge : s.status.merge r = .ok status) (htook : Took s r status s') : Received s s'
  | refused {r : Record} {channel : List Record} {fault : FleetFault}
      (hnext : s.next? = some r) (hmerge : s.status.merge r = .error fault)
      (hchannel : s.channel = r :: channel) :
      Received s { s with channel := channel, receiver := .returned (.error fault) }
  | finished {calledOff : Bool} {s' : State σ α τ}
      (hreceiver : s.receiver = .finishing calledOff) (hfinished : Finished s calledOff s') :
      Received s s'

theorem took_of_merge {s : State σ α τ} {r : Record} {channel : List Record} {status : Status}
    (hchannel : s.channel = r :: channel) (hmerge : s.status.merge r = .ok status) :
    Took s r status ({ s with channel := channel }.merge r s.receiver.afterRecord) := by
  obtain ⟨hresult, htally, hconfig⟩ := Aggregation.absorb_of_ok (a := s.aggregation) hmerge
  have htree := Aggregation.rewritten_absorb s.aggregation r
  unfold State.merge
  cases habsorb : s.aggregation.absorb r with
  | mk result a =>
      rw [habsorb] at hresult htally hconfig htree
      cases hresult
      simp only
      split
      · rename_i hok
        exact {
          workers := rfl, channel := hchannel, receiver := rfl, calledOff := rfl, remote := rfl
          tally := htally, config := hconfig, filed := rfl, tree := htree, merged := rfl
          synced := by
            unfold documented
            rw [if_pos hok]
            rfl }
      · rename_i hfailed
        exact {
          workers := rfl, channel := hchannel, receiver := rfl, calledOff := rfl, remote := rfl
          tally := htally, config := hconfig, filed := rfl, tree := htree, merged := rfl
          synced := by
            unfold documented
            rw [if_neg hfailed]
            rfl }

theorem merge_of_error {s : State σ α τ} {r : Record} {channel : List Record}
    {fault : FleetFault} (next : Receiver) (hmerge : s.status.merge r = .error fault) :
    ({ s with channel := channel }.merge r next) =
      { s with channel := channel, receiver := .returned (.error fault) } := by
  unfold State.merge
  simp only [Aggregation.absorb_of_error (a := s.aggregation) hmerge]

theorem received_of_merge {s : State σ α τ} {r : Record} {channel : List Record}
    (hnext : s.next? = some r) (hchannel : s.channel = r :: channel) :
    Received s ({ s with channel := channel }.merge r s.receiver.afterRecord) := by
  cases hmerge : s.status.merge r with
  | error fault =>
      rw [merge_of_error s.receiver.afterRecord hmerge]
      exact .refused hnext hmerge hchannel
  | ok status => exact .took hnext hmerge (took_of_merge hchannel hmerge)

theorem finished_finish (s : State σ α τ) (calledOff : Bool) :
    Finished s calledOff (s.finish calledOff) where
  workers := rfl
  channel := rfl
  receiver := by
    rcases Aggregation.result_finish s.aggregation with hresult | ⟨cause, hresult⟩
    · have hmapped := congrArg (Except.map fun t => Outcome.mk t calledOff) hresult
      exact Or.inl (congrArg Receiver.returned hmapped)
    · have hmapped := congrArg (Except.map fun t => Outcome.mk t calledOff) hresult
      exact Or.inr ⟨s.config.path, cause, congrArg Receiver.returned hmapped⟩
  calledOff := rfl
  remote := rfl
  tally := rfl
  config := Aggregation.config_finish s.aggregation
  filed := rfl
  tree := Aggregation.rewritten_finish s.aggregation
  merged := rfl
  synced := rfl

theorem receive_of_next {s : State σ α τ} {r : Record} (hnext : s.next? = some r) :
    ∃ channel, s.receive =
      some ({ s with channel := channel }.merge r s.receiver.afterRecord) := by
  obtain ⟨now, bucket, calledOff, permits, queue, workers, channel, receiver, aggregation, remote,
    history⟩ := s
  simp only [next?] at hnext
  split at hnext
  · rename_i left
    cases calledOff with
    | true => cases hnext
    | false =>
        obtain ⟨rest, rfl⟩ := List.head?_eq_some_iff.1 hnext
        exact ⟨rest, rfl⟩
  · obtain ⟨rest, rfl⟩ := List.head?_eq_some_iff.1 hnext
    exact ⟨rest, rfl⟩
  · cases hnext

theorem received_of_receive {s s' : State σ α τ} (hreceive : s.receive = some s') :
    Received s s' := by
  unfold receive at hreceive
  split at hreceive
  · rename_i hreceiver
    cases hreceive
    exact .counted hreceiver
  · rename_i left hreceiver
    split at hreceive
    · rename_i hcalledOff
      cases hreceive
      exact .stopped hreceiver hcalledOff
    · rename_i hcalledOff
      split at hreceive
      · rename_i r channel hchannel
        cases hreceive
        have hnext : s.next? = some r := by simp [next?, hreceiver, hcalledOff, hchannel]
        have hafter : s.receiver.afterRecord = .receiving left := by rw [hreceiver]; rfl
        rw [← hafter]
        exact received_of_merge hnext hchannel
      · rename_i hempty
        split at hreceive
        · rename_i hended
          cases hreceive
          refine .deserted hreceiver hempty ?_
          intro duty hduty
          have hisEnded := List.all_eq_true.1 hended duty hduty
          cases duty <;> first | rfl | cases hisEnded
        · cases hreceive
  · rename_i hreceiver
    split at hreceive
    · rename_i r channel hchannel
      cases hreceive
      have hnext : s.next? = some r := by simp [next?, hreceiver, hchannel]
      have hafter : s.receiver.afterRecord = .draining := by rw [hreceiver]; rfl
      rw [← hafter]
      exact received_of_merge hnext hchannel
    · rename_i hempty
      cases hreceive
      exact .emptied hreceiver hempty
  · rename_i calledOff hreceiver
    cases hreceive
    exact .finished hreceiver (finished_finish s calledOff)
  · cases hreceive

/-!
## Workers leave the books alone
-/

structure SameBooks (s s' : State σ α τ) : Prop where
  receiver : s'.receiver = s.receiver
  tally : s'.tally = s.tally
  config : s'.config = s.config
  merged : s'.merged = s.merged
  synced : s'.synced = s.synced

theorem SameBooks.trans {s t u : State σ α τ} (hfirst : s.SameBooks t) (hsecond : t.SameBooks u) :
    s.SameBooks u where
  receiver := hsecond.receiver.trans hfirst.receiver
  tally := hsecond.tally.trans hfirst.tally
  config := hsecond.config.trans hfirst.config
  merged := hsecond.merged.trans hfirst.merged
  synced := hsecond.synced.trans hfirst.synced

theorem Beside.sameBooks {s s' : State σ α τ} (hbeside : s.Beside s') : s.SameBooks s' :=
  ⟨hbeside.receiver, hbeside.tally, hbeside.config, hbeside.merged, hbeside.synced⟩

theorem sameBooks_resume (s : State σ α τ) (w : Nat) (c : Collector) (answer : Response) :
    s.SameBooks (s.resume w c answer) := by
  rcases cases_of_resume s w c answer with hresume | ⟨r, hresume⟩ <;> rw [hresume]
  all_goals exact ⟨rfl, rfl, rfl, rfl, rfl⟩

theorem sameBooks_release (s : State σ α τ) (w : Nat) : s.SameBooks (s.release w) := by
  obtain ⟨_, _, _, hrelease, -⟩ := exists_release s w
  rw [hrelease]
  exact ⟨rfl, rfl, rfl, rfl, rfl⟩

theorem Worked.sameBooks {setting : Setting σ} {s s' : State σ α τ} {w : Nat}
    (hworked : Worked setting s w s') : s.SameBooks s' := by
  cases hworked with
  | skipped => exact ⟨rfl, rfl, rfl, rfl, rfl⟩
  | kept _ _ hbeside => exact hbeside.sameBooks.trans ⟨rfl, rfl, rfl, rfl, rfl⟩
  | unanswered _ _ hbeside => exact hbeside.sameBooks.trans ⟨rfl, rfl, rfl, rfl, rfl⟩
  | told _ _ _ hbeside => exact hbeside.sameBooks.trans (sameBooks_resume _ _ _ _)
  | sent =>
      exact SameBooks.trans (by exact ⟨rfl, rfl, rfl, rfl, rfl⟩) (sameBooks_release _ _)
  | dropped => exact sameBooks_release _ _

/-!
## The books in every state
-/

/-- How the books of a run stand to the state in which it started. -/
structure Ledger (first s : State σ α τ) : Prop where
  status : first.status.mergeAll s.merged = .ok s.status
  config : s.config = { first.config with status := s.status }
  tally : s.tally = Tally.of s.merged
  documents : first.status.Growing (s.synced.map FleetConfig.status) s.status

theorem Ledger.of_sameBooks {first s s' : State σ α τ} (hledger : Ledger first s)
    (hsame : s.SameBooks s') : Ledger first s' := by
  have hstatus : s'.status = s.status := congrArg FleetConfig.status hsame.config
  constructor
  case status =>
    rw [hsame.merged, hstatus]
    exact hledger.status
  case config =>
    rw [hsame.config, hstatus]
    exact hledger.config
  case tally =>
    rw [hsame.tally, hsame.merged]
    exact hledger.tally
  case documents =>
    rw [hsame.synced, hstatus]
    exact hledger.documents

theorem Ledger.of_took {first s s' : State σ α τ} {r : Record} {status : Status}
    (hledger : Ledger first s) (hmerge : s.status.merge r = .ok status)
    (htook : Took s r status s') : Ledger first s' := by
  have hstatus : s'.status = status := congrArg FleetConfig.status htook.config
  have hgrown : s.status.Growing ((documented r s'.config).map FleetConfig.status) s'.status := by
    have hwithin := Status.within_of_merge hmerge
    rw [← hstatus] at hwithin
    unfold documented
    split
    · exact Status.growing_singleton hwithin
    · exact Status.growing_nil hwithin
  constructor
  case status =>
    rw [htook.merged, hstatus]
    exact Status.mergeAll_cons_eq_ok_iff.2 ⟨s.status, hledger.status, hmerge⟩
  case config => rw [hstatus, htook.config, hledger.config]
  case tally =>
    rw [htook.tally, htook.merged, hledger.tally]
    rfl
  case documents =>
    rw [htook.synced, List.map_append]
    exact hledger.documents.append hgrown

theorem Ledger.of_received {first s s' : State σ α τ} (hledger : Ledger first s)
    (hreceived : Received s s') : Ledger first s' := by
  cases hreceived with
  | took _ hmerge htook => exact hledger.of_took hmerge htook
  | finished _ hfinished =>
      have hstatus : s'.status = s.status := congrArg FleetConfig.status hfinished.config
      constructor
      case status =>
        rw [hfinished.merged, hstatus]
        exact hledger.status
      case config =>
        rw [hfinished.config, hstatus]
        exact hledger.config
      case tally =>
        rw [hfinished.tally, hfinished.merged]
        exact hledger.tally
      case documents =>
        have hwithin : s.status.Within s'.status := by
          rw [hstatus]
          exact .refl s.status
        rw [hfinished.synced]
        exact hledger.documents.append (Status.growing_singleton hwithin)
  | _ => exact ⟨hledger.status, hledger.config, hledger.tally, hledger.documents⟩

structure Closing (s : State σ α τ) (calledOff : Bool) (a : State σ α τ) : Prop where
  receiver : a.receiver = .finishing calledOff ∨
    a.receiver = .returned (.ok ⟨s.tally, calledOff⟩) ∨
    ∃ path cause, a.receiver = .returned (.error (.sync path cause))
  tally : a.tally = s.tally
  config : a.config = s.config
  merged : a.merged = s.merged

theorem Closing.of_sameBooks {s a b : State σ α τ} {calledOff : Bool}
    (hclosing : Closing s calledOff a) (hsame : a.SameBooks b) : Closing s calledOff b where
  receiver := by
    rw [hsame.receiver]
    exact hclosing.receiver
  tally := hsame.tally.trans hclosing.tally
  config := hsame.config.trans hclosing.config
  merged := hsame.merged.trans hclosing.merged

variable [Rate.Meter α τ] [LE τ] [DecidableLE τ] {setting : Setting σ}

theorem Ledger.of_step {first s s' : State σ α τ} {m : Move τ} (hledger : Ledger first s)
    (hstep : s.step setting m = some s') : Ledger first s' := by
  rcases cases_of_step hstep with ⟨hbeside, -⟩ | ⟨w, hworked⟩ | hreceive
  · exact hledger.of_sameBooks hbeside.sameBooks
  · exact hledger.of_sameBooks hworked.sameBooks
  · exact hledger.of_received (received_of_receive hreceive)

theorem ledger_of_reaches {store : FleetStore} {stages : List Protocol.Stage} {folder : Path}
    {bucket : Rate.Bucket α τ} {now : τ} {calledOff : Bool} {remote : σ} {s : State σ α τ}
    (hreaches : (start store stages folder bucket now calledOff remote).Reaches setting s) :
    Ledger (start store stages folder bucket now calledOff remote) s := by
  induction hreaches with
  | here => exact ⟨rfl, rfl, rfl, Status.growing_nil (.refl _)⟩
  | move _ hstep ih => exact ih.of_step hstep

/-!
## After the receiver has returned
-/

theorem sameBooks_of_returned {s a : State σ α τ} {result : Except FleetFault Outcome}
    (hreturned : s.receiver = .returned result) (hreaches : s.Reaches setting a) :
    s.SameBooks a := by
  induction hreaches with
  | here => exact ⟨rfl, rfl, rfl, rfl, rfl⟩
  | move _ hstep ih =>
      rename_i b a' _ _
      rcases cases_of_step hstep with ⟨hbeside, -⟩ | ⟨w, hworked⟩ | hreceive
      · exact ih.trans hbeside.sameBooks
      · exact ih.trans hworked.sameBooks
      · have hstill : b.receiver = .returned result := ih.receiver.trans hreturned
        rw [receive, hstill] at hreceive
        cases hreceive

theorem closing_of_finishing {s a : State σ α τ} {calledOff : Bool}
    (hfinishing : s.receiver = .finishing calledOff) (hreaches : s.Reaches setting a) :
    Closing s calledOff a := by
  induction hreaches with
  | here => exact ⟨Or.inl hfinishing, rfl, rfl, rfl⟩
  | @move b a m _ hstep ih =>
      rcases cases_of_step hstep with ⟨hbeside, -⟩ | ⟨w, hworked⟩ | hreceive
      · exact ih.of_sameBooks hbeside.sameBooks
      · exact ih.of_sameBooks hworked.sameBooks
      · rcases ih.receiver with hstill | hok | ⟨path, cause, hfault⟩
        · rw [receive, hstill] at hreceive
          cases hreceive
          have hfinished := finished_finish b calledOff
          refine ⟨Or.inr ?_, hfinished.tally.trans ih.tally, hfinished.config.trans ih.config,
            hfinished.merged.trans ih.merged⟩
          rw [← ih.tally]
          exact hfinished.receiver
        · rw [receive, hok] at hreceive
          cases hreceive
        · rw [receive, hfault] at hreceive
          cases hreceive

theorem step_of_refused {s : State σ α τ} {r : Record} {fault : FleetFault}
    (hnext : s.next? = some r) (hmerge : s.status.merge r = .error fault) :
    ∃ b, s.step setting .receive = some b ∧ b.receiver = .returned (.error fault) ∧
      b.tally = s.tally ∧ b.config = s.config ∧ b.merged = s.merged ∧ b.synced = s.synced := by
  obtain ⟨channel, hreceive⟩ := receive_of_next hnext
  rw [merge_of_error s.receiver.afterRecord hmerge] at hreceive
  exact ⟨_, hreceive, rfl, rfl, rfl, rfl, rfl⟩

end State
end Run
end LogHarvest
