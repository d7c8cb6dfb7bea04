import LogHarvest.Proofs.Run.Sessions

/-!
# What a run has counted when it settles

`Counting` is about runs that nobody calls off.  But a run may also be called off
when its receiver does not look any more, and then it ends like any other.
`Settling` holds of every run: the records that the receiver has merged and those
that it waits for make up the members, and when it finishes without having seen that
the run was called off, it has merged the record of every member.

Then every worker has ended (`Quiet`), and nothing will ever come of any.
-/

namespace LogHarvest

def FleetFault.isRefusal : FleetFault → Bool
  | .unknownGroup _ | .duplicateInstance .. => true
  | _ => false

namespace Run
namespace State

variable {σ α τ : Type}

/-!
## Runs in which nobody works
-/

def Quiet (s : State σ α τ) : Prop :=
  s.workers.all Duty.isEnded = true

theorem Quiet.of_workers {s s' : State σ α τ} (hquiet : s.Quiet)
    (hworkers : s'.workers = s.workers) : s'.Quiet := by
  rw [Quiet, hworkers]
  exact hquiet

theorem Quiet.ended {s : State σ α τ} {w : Nat} {duty : Duty τ} (hquiet : s.Quiet)
    (hduty : s.workers[w]? = some duty) : duty = .ended := by
  have hended := List.all_eq_true.1 hquiet duty (List.mem_of_getElem? hduty)
  cases duty with
  | ended => rfl
  | _ => cases hended

theorem Quiet.not_carrying {s : State σ α τ} (hquiet : s.Quiet) (w : Nat) :
    s.collector? w = none ∧ s.held? w = none := by
  unfold collector? held?
  cases hduty : s.workers[w]? with
  | none => exact ⟨rfl, rfl⟩
  | some duty =>
      rw [hquiet.ended hduty]
      exact ⟨rfl, rfl⟩

theorem Quiet.not_worked {setting : Setting σ} {s s' : State σ α τ} {w : Nat}
    (hquiet : s.Quiet) (hworked : Worked setting s w s') : False := by
  obtain ⟨hcollector, hheld⟩ := hquiet.not_carrying w
  cases hworked with
  | skipped hcarries _ => exact Option.some_ne_none _ (hcarries.symm.trans hcollector)
  | kept hcarries _ _ _ => exact Option.some_ne_none _ (hcarries.symm.trans hcollector)
  | unanswered hcarries _ _ => exact Option.some_ne_none _ (hcarries.symm.trans hcollector)
  | told hcarries _ _ _ => exact Option.some_ne_none _ (hcarries.symm.trans hcollector)
  | sent hholds _ _ => exact Option.some_ne_none _ (hholds.symm.trans hheld)
  | dropped hholds _ => exact Option.some_ne_none _ (hholds.symm.trans hheld)

theorem Delivery.quiet {s : State σ α τ} (hdelivery : Delivery s) (hbalance : Balance s)
    (hopen : s.receiver.result? = none) (hmerged : s.merged.length = s.workers.length) :
    s.Quiet := by
  obtain ⟨-, hworkers, hnone⟩ := hdelivery.all_merged hopen hmerged
  refine List.all_eq_true.2 ?_
  intro duty hmem
  obtain ⟨w, hw, hduty⟩ := List.getElem_of_mem hmem
  have hduty : s.workers[w]? = some duty := List.getElem?_eq_some_iff.2 ⟨hw, hduty⟩
  -- The worker has handed a record over and does not hold it, so it is through.
  obtain ⟨⟨i, r⟩, hr, rfl⟩ := List.mem_map.1 (hworkers.mem_iff.2 (List.mem_range.2 hw))
  obtain ⟨other, hother, hthrough⟩ := hbalance.through i r hr
  rw [hduty] at hother
  cases hother
  have hheld : s.held? i = none := hnone _ hr
  rw [held?, hduty] at hheld
  cases duty with
  | ended => rfl
  | sending _ => cases hheld
  | _ => cases hthrough

/-!
## The count
-/

/-- Where a run over so many members stands. -/
structure Settling (n : Nat) (s : State σ α τ) : Prop where
  length : s.workers.length = n
  inside : s.merged.length ≤ n
  calm : s.calledOff = false → Counting n s
  receiving : ∀ left, s.receiver = .receiving left → left + s.merged.length = n
  finishing : s.receiver = .finishing false → s.merged.length = n ∧ s.Quiet
  returned : ∀ tally, s.receiver = .returned (.ok ⟨tally, false⟩) → s.merged.length = n ∧ s.Quiet
  /-- The document could not be written at the end of a run that nobody called off. -/
  failed : ∀ fault, s.receiver = .returned (.error fault) → fault.isRefusal = false →
    s.calledOff = false → s.Quiet

theorem settling_start (store : FleetStore) (stages : List Protocol.Stage) (folder : Path)
    (bucket : Rate.Bucket α τ) (now : τ) (calledOff : Bool) (remote : σ) :
    Settling store.config.status.roster.length
      (start store stages folder bucket now calledOff remote) := by
  have hcounting := counting_start store stages folder bucket now calledOff remote
  constructor
  case length => exact hcounting.length
  case inside => exact Nat.zero_le _
  case calm => exact fun _ => hcounting
  case receiving => exact hcounting.receiving
  all_goals exact nofun

theorem settling_of_receiving {n : Nat} {s : State σ α τ} (hlength : s.workers.length = n)
    (hinside : s.merged.length ≤ n) (hcalm : s.calledOff = false → Counting n s)
    (hreceiver : s.receiver = .draining ∨ s.receiver = .finishing true ∨
      ∃ left, s.receiver = .receiving left ∧ left + s.merged.length = n) : Settling n s := by
  rcases hreceiver with hreceiver | hreceiver | ⟨left, hreceiver, hcount⟩
  · constructor <;> first | assumption | (rw [hreceiver]; exact nofun)
  · constructor <;> first | assumption | (rw [hreceiver]; exact nofun)
  · refine ⟨hlength, hinside, hcalm, ?_, ?_, ?_, ?_⟩
    · intro left' hleft
      rw [hreceiver] at hleft
      cases hleft
      exact hcount
    all_goals
      rw [hreceiver]
      exact nofun

theorem Settling.of_sameBooks {n : Nat} {s s' : State σ α τ} (hsettling : Settling n s)
    (hsame : s.SameBooks s') (hlength : s'.workers.length = s.workers.length)
    (hcalledOff : s.calledOff = true → s'.calledOff = true)
    (hcalm : s.calledOff = false → Counting n s → Counting n s') (hquiet : s.Quiet → s'.Quiet) :
    Settling n s' := by
  have hbefore : s'.calledOff = false → s.calledOff = false := by
    intro hcalm
    cases hcase : s.calledOff with
    | false => rfl
    | true => exact absurd (hcalledOff hcase) (by simp [hcalm])
  constructor
  case length => exact hlength.trans hsettling.length
  case inside =>
    rw [hsame.merged]
    exact hsettling.inside
  case calm =>
    intro hcalm'
    exact hcalm (hbefore hcalm') (hsettling.calm (hbefore hcalm'))
  case receiving =>
    rw [hsame.receiver, hsame.merged]
    exact hsettling.receiving
  case finishing =>
    rw [hsame.receiver, hsame.merged]
    exact fun hreceiver => (hsettling.finishing hreceiver).imp_right hquiet
  case returned =>
    rw [hsame.receiver, hsame.merged]
    exact fun tally hreceiver => (hsettling.returned tally hreceiver).imp_right hquiet
  case failed =>
    rw [hsame.receiver]
    intro fault hreceiver hnot hcalm'
    exact hquiet (hsettling.failed fault hreceiver hnot (hbefore hcalm'))

theorem Settling.of_beside {n : Nat} {s s' : State σ α τ} (hsettling : Settling n s)
    (hbeside : s.Beside s') : Settling n s' :=
  hsettling.of_sameBooks hbeside.sameBooks (by rw [hbeside.workers]) hbeside.calledOff
    (fun _ hcounting => hcounting.of_beside hbeside)
    (fun hquiet => hquiet.of_workers hbeside.workers)

theorem Settling.of_worked {n : Nat} {setting : Setting σ} {s s' : State σ α τ} {w : Nat}
    (hsettling : Settling n s) (hdelivery : Delivery s) (hworked : Worked setting s w s') :
    Settling n s' :=
  hsettling.of_sameBooks hworked.sameBooks hworked.length_workers hworked.calledOff
    (fun hcalm hcounting => hcounting.of_worked hdelivery hcalm hworked)
    (fun hquiet => (hquiet.not_worked hworked).elim)

theorem calm_of_deserted {s s' : State σ α τ} {left : Nat} (hreceive : s.receive = some s')
    (hreceiver : s.receiver = .receiving (left + 1)) (hfinishing : s'.receiver = .finishing false) :
    s.calledOff = false := by
  cases hcalledOff : s.calledOff with
  | false => rfl
  | true =>
      simp only [receive, hreceiver, hcalledOff, if_true, Option.some.injEq] at hreceive
      rw [← hreceive] at hfinishing
      cases hfinishing

theorem settling_of_finishing {n : Nat} {s : State σ α τ} (hsettling : Settling n s)
    (hdelivery : Delivery s) (hbalance : Balance s) (hopen : s.receiver.result? = none)
    (hmerged : s.merged.length = n)
    (hcalm : s.calledOff = false → Counting n { s with receiver := .finishing false }) :
    Settling n { s with receiver := .finishing false } := by
  have hquiet : s.Quiet := by
    refine hdelivery.quiet hbalance hopen ?_
    rw [hmerged, hsettling.length]
  refine ⟨hsettling.length, hsettling.inside, hcalm, nofun, ?_, nofun, nofun⟩
  exact fun _ => ⟨hmerged, hquiet.of_workers rfl⟩

theorem Settling.of_took {n : Nat} {s s' : State σ α τ} {r : Record} {status : Status}
    (hsettling : Settling n s) (hdelivery : Delivery s)
    (hcalm : s'.calledOff = false → Counting n s') (hnext : s.next? = some r)
    (htook : Took s r status s') : Settling n s' := by
  have hlength : s'.workers.length = n := by
    rw [htook.workers]
    exact hsettling.length
  have hinside : s'.merged.length ≤ n := by
    have hreturned := hdelivery.length_returned_le
    have hmerged := hdelivery.length_merged_le (open_of_next? hnext)
    rw [hsettling.length] at hreturned
    rw [htook.channel, List.length_cons] at hmerged
    rw [htook.merged, List.length_cons]
    omega
  refine settling_of_receiving hlength hinside hcalm ?_
  rcases htook.cases_receiver hnext with ⟨left, hreceiver, hafter⟩ | ⟨-, hafter⟩
  · have hcount := hsettling.receiving _ hreceiver
    refine Or.inr (Or.inr ⟨left, hafter, ?_⟩)
    rw [htook.merged, List.length_cons]
    omega
  · exact Or.inl hafter

theorem Settling.of_finished {n : Nat} {s s' : State σ α τ} {calledOff : Bool}
    (hsettling : Settling n s) (hcalm : s'.calledOff = false → Counting n s')
    (hreceiver : s.receiver = .finishing calledOff) (hfinished : Finished s calledOff s') :
    Settling n s' := by
  have hlength : s'.workers.length = n := by
    rw [hfinished.workers]
    exact hsettling.length
  have hinside : s'.merged.length ≤ n := by
    rw [hfinished.merged]
    exact hsettling.inside
  have hquiet : s.Quiet → s'.Quiet := fun h => h.of_workers hfinished.workers
  rcases hfinished.receiver with hok | ⟨path, cause, hfault⟩
  · refine ⟨hlength, hinside, hcalm, ?_, ?_, ?_, ?_⟩
    all_goals rw [hok]
    · exact nofun
    · exact nofun
    · intro tally hreturned
      cases hreturned
      rw [hfinished.merged]
      exact (hsettling.finishing hreceiver).imp_right hquiet
    · exact nofun
  · refine ⟨hlength, hinside, hcalm, ?_, ?_, ?_, ?_⟩
    all_goals rw [hfault]
    · exact nofun
    · exact nofun
    · exact nofun
    · intro _ _ _ hcalm'
      rw [hfinished.calledOff] at hcalm'
      obtain ⟨rfl, -⟩ := (hsettling.calm hcalm').finishing calledOff hreceiver
      exact hquiet (hsettling.finishing hreceiver).2

theorem Settling.of_receive {n : Nat} {s s' : State σ α τ} (hsettling : Settling n s)
    (hdelivery : Delivery s) (hbalance : Balance s) (hreceive : s.receive = some s') :
    Settling n s' := by
  have hreceived := received_of_receive hreceive
  have hcalm : s'.calledOff = false → Counting n s' := by
    intro hcalm
    have hbefore : s.calledOff = false := by
      rw [← hreceived.calledOff]
      exact hcalm
    exact (hsettling.calm hbefore).of_received hdelivery hbefore hreceived
  cases hreceived with
  | counted hreceiver =>
      have hall := hsettling.receiving 0 hreceiver
      rw [Nat.zero_add] at hall
      exact settling_of_finishing hsettling hdelivery hbalance (by rw [hreceiver]; rfl) hall hcalm
  | stopped _ _ =>
      exact settling_of_receiving hsettling.length hsettling.inside hcalm (Or.inl rfl)
  | deserted hreceiver _ _ =>
      -- Nobody has called the run off, so every worker that is through was counted.
      have hbefore : s.calledOff = false := calm_of_deserted hreceive hreceiver rfl
      have hall := ((hcalm hbefore).finishing false rfl).2
      exact settling_of_finishing hsettling hdelivery hbalance (by rw [hreceiver]; rfl) hall hcalm
  | emptied _ _ =>
      exact settling_of_receiving hsettling.length hsettling.inside hcalm (Or.inr (Or.inl rfl))
  | took hnext _ htook => exact hsettling.of_took hdelivery hcalm hnext htook
  | @refused r channel fault hnext hmerge _ =>
      refine ⟨hsettling.length, hsettling.inside, hcalm, nofun, nofun, nofun, ?_⟩
      intro fault' hreturned hnot
      cases hreturned
      rcases Status.fault_of_merge hmerge with rfl | rfl <;> cases hnot
  | finished hreceiver hfinished => exact hsettling.of_finished hcalm hreceiver hfinished

variable [Rate.Meter α τ] [LE τ] [DecidableLE τ] {setting : Setting σ}

theorem Settling.of_step {n : Nat} {s s' : State σ α τ} {m : Move τ} (hsettling : Settling n s)
    (hdelivery : Delivery s) (hbalance : Balance s) (hstep : s.step setting m = some s') :
    Settling n s' := by
  rcases cases_of_step hstep with ⟨hbeside, -⟩ | ⟨w, hworked⟩ | hreceive
  · exact hsettling.of_beside hbeside
  · exact hsettling.of_worked hdelivery hworked
  · exact hsettling.of_receive hdelivery hbalance hreceive

theorem Settling.of_reaches {n : Nat} {s s' : State σ α τ} (hsettling : Settling n s)
    (hdelivery : Delivery s) (hbalance : Balance s) (hreaches : s.Reaches setting s') :
    Settling n s' := by
  induction hreaches with
  | here => exact hsettling
  | move hbefore hstep ih =>
      exact ih.of_step (hdelivery.of_reaches hbefore) (hbalance.of_reaches hbefore) hstep

end State
end Run
end LogHarvest
