import LogHarvest.Proofs.Run.Cancellation
import LogHarvest.Proofs.Run.Sessions

/-!
# Somebody can always go on

A run whose calls return comes to a standstill only when its receiver has returned.
`State.GoesOn` lists who may go on: the receiver, a worker, a worker once the clock has
moved to when its reservation matures, or a worker once its call is answered.

Who waits for whom has no cycle.  A worker in the queue waits for one that has a permit
(`Permitted.exists_seated`), one with a permit waits for the clock, for an answer, or for
room in the channel, and where there is no room the receiver has something to take
(`exists_receive`).  What is left is that no worker is stuck by itself (`Live`).
-/

namespace LogHarvest

variable {σ α τ : Type}

/--
A call returns at some time: it is never left unanswered, and where it has no answer yet,
the connector can get to a state in which it has one.
-/
def Surroundings.Return {β : Type} (call : Surroundings σ → Reply σ β) : Prop :=
  ∀ around, (call around).verdict ≠ .never ∧
    ∃ state result, (call ⟨state, around.tree⟩).verdict = .now result

structure Connector.Returns (connector : Connector σ) : Prop where
  connect : ∀ session i, Surroundings.Return (connector.connect session i)
  run : ∀ session i line verbose, Surroundings.Return (connector.run session i line verbose)

namespace Run

/-- The worker's collector has something left to do, and is not waiting in vain. -/
def Duty.isLive : Duty τ → Bool
  | .unstarted c | .queued c | .active c | .waiting c _ => c.record?.isNone
  | .unanswered _ => false
  | .sending _ | .ended => true

theorem Duty.isLive_of_collector? {duty : Duty τ} {c : Collector}
    (hcollector : duty.collector? = some c) : duty.isLive = c.record?.isNone := by
  cases duty <;> cases hcollector <;> rfl

namespace State

/-- A call of a worker's collector has no answer yet. -/
inductive Pending (setting : Setting σ) (w : Nat) (c : Collector) (around : Surroundings σ) : Prop
  | connect (hrequest : c.request = .connect)
      (hverdict : (setting.connector.connect w c.subject around).verdict = .later)
  | run {line : String} (hrequest : c.request = .run line)
      (hverdict : (setting.connector.run w c.subject line setting.verbose around).verdict = .later)

/-- Somebody can go on, at once or when it is time. -/
inductive GoesOn [Rate.Meter α τ] [LE τ] [DecidableLE τ] (setting : Setting σ)
    (s : State σ α τ) : Prop
  | receiver {s' : State σ α τ} (hstep : s.step setting .receive = some s')
  | worker {w : Nat} {s' : State σ α τ} (hstep : s.step setting (.work w) = some s')
  /-- The clock moves on, and a worker's reservation matures. -/
  | clock {w : Nat} {c : Collector} {due : τ} {s' s'' : State σ α τ}
      (hduty : s.workers[w]? = some (.waiting c due)) (htick : s.step setting (.tick due) = some s')
      (hstep : s'.step setting (.work w) = some s'')
  /-- The connector answers a call that it has not answered yet. -/
  | connector {w : Nat} {c : Collector} {state : σ} {s' : State σ α τ}
      (hduty : s.workers[w]? = some (.active c)) (hpending : Pending setting w c s.around)
      (hstep : { s with remote := state }.step setting (.work w) = some s')

def Live (s : State σ α τ) : Prop :=
  ∀ (w : Nat) (duty : Duty τ), s.workers[w]? = some duty → duty.isLive = true

variable {setting : Setting σ} {s s' : State σ α τ} {w : Nat} {c : Collector}

/-!
## Workers that are not stuck
-/

theorem Live.record? (hlive : s.Live) (hcollector : s.collector? w = some c) :
    c.record? = none := by
  obtain ⟨duty, hduty, hcarried⟩ := Option.bind_eq_some_iff.1 hcollector
  have hself := hlive w duty hduty
  rw [Duty.isLive_of_collector? hcarried] at hself
  exact Option.isNone_iff_eq_none.1 hself

theorem Live.of_workers (hlive : s.Live) (hworkers : s'.workers = s.workers) : s'.Live := by
  unfold Live
  rw [hworkers]
  exact hlive

theorem Live.of_assign {duty : Duty τ} (hlive : s.Live) (hw : w < s.workers.length)
    (hduty : duty.isLive = true) : (s.assign w duty).Live := by
  intro i other hother
  rw [duty_assign hw] at hother
  by_cases hi : i = w
  · rw [if_pos hi] at hother
    cases hother
    exact hduty
  · rw [if_neg hi] at hother
    exact hlive i other hother

theorem Live.of_resume {answer : Response} (hlive : s.Live) (hw : w < s.workers.length) :
    (s.resume w c answer).Live := by
  cases hrecord : (c.resume answer).record? with
  | none =>
      rw [resume_of_unfinished hrecord]
      exact hlive.of_assign hw (Option.isNone_iff_eq_none.2 hrecord)
  | some r =>
      rw [resume_of_finished hrecord]
      have hsending : (s.assign w (.sending r)).Live := hlive.of_assign hw rfl
      exact hsending.of_workers rfl

theorem Live.of_release (hlive : s.Live) (hw : w < s.workers.length) : (s.release w).Live := by
  have hended : (s.assign w .ended).Live := hlive.of_assign hw rfl
  intro i duty hduty
  rcases duty_release s w i with hsame | ⟨c, hqueued, hactive⟩
  · rw [hsame] at hduty
    exact hended i duty hduty
  · rw [hactive] at hduty
    cases hduty
    have hself := hended i _ hqueued
    exact hself

theorem not_unanswered {before after : Surroundings σ} (hreturns : setting.connector.Returns) :
    ¬ Unanswered setting w c before after := by
  intro hnever
  cases hnever with
  | connect _ hverdict => exact (hreturns.connect w c.subject before).1 hverdict
  | run _ hverdict => exact (hreturns.run w c.subject _ setting.verbose before).1 hverdict

theorem Live.of_worked (hreturns : setting.connector.Returns) (hlive : s.Live)
    (hworked : Worked setting s w s') : s'.Live := by
  cases hworked with
  | skipped hcollector _ => exact hlive.of_assign (lt_length_of_collector? hcollector) rfl
  | kept hcollector hduty hbeside _ =>
      have hw := lt_length_of_collector? hcollector
      rw [← hbeside.workers] at hw
      refine (hlive.of_workers hbeside.workers).of_assign hw ?_
      rw [Duty.isLive_of_collector? hduty, hlive.record? hcollector]
      rfl
  | unanswered _ hnever _ => exact absurd hnever (not_unanswered hreturns)
  | told hcollector _ _ hbeside =>
      have hw := lt_length_of_collector? hcollector
      rw [← hbeside.workers] at hw
      exact (hlive.of_workers hbeside.workers).of_resume hw
  | @sent r hheld _ _ =>
      have hsent : Live { s with channel := s.channel ++ [r] } := hlive.of_workers rfl
      exact hsent.of_release (lt_length_of_held? hheld)
  | dropped hheld _ => exact hlive.of_release (lt_length_of_held? hheld)

theorem live_start (store : FleetStore) (stages : List Protocol.Stage) (folder : Path)
    (bucket : Rate.Bucket α τ) (now : τ) (calledOff : Bool) (remote : σ) :
    (start store stages folder bucket now calledOff remote).Live := by
  intro w duty hduty
  obtain ⟨group, i, rfl⟩ := unstarted_of_start hduty
  rfl

section

variable [Rate.Meter α τ] [LE τ] [DecidableLE τ]

theorem Live.of_reaches (hreturns : setting.connector.Returns) (hlive : s.Live)
    (hreaches : s.Reaches setting s') : s'.Live := by
  induction hreaches with
  | here => exact hlive
  | move _ hstep ih =>
      rcases cases_of_step hstep with ⟨hbeside, -⟩ | ⟨w, hworked⟩ | hreceive
      · exact ih.of_workers hbeside.workers
      · exact ih.of_worked hreturns hworked
      · exact ih.of_workers (aside_receive hreceive).workers

end

/-!
## Who can go on
-/

theorem exists_receive (hopen : s.receiver.result? = none) :
    (∃ s', s.receive = some s') ∨
      (s.channel = [] ∧ ∃ (w : Nat) (duty : Duty τ), s.workers[w]? = some duty ∧
        duty.isEnded = false) := by
  cases hreceive : s.receive with
  | some s' => exact Or.inl ⟨s', rfl⟩
  | none =>
      right
      unfold receive at hreceive
      split at hreceive
      · cases hreceive
      · split at hreceive
        · cases hreceive
        · split at hreceive
          · cases hreceive
          · rename_i hempty
            split at hreceive
            · cases hreceive
            · rename_i hnot
              obtain ⟨duty, hmem, hduty⟩ := List.all_eq_false.1 (Bool.not_eq_true _ ▸ hnot)
              obtain ⟨w, hw⟩ := List.getElem?_of_mem hmem
              exact ⟨hempty, w, duty, hw, Bool.not_eq_true _ ▸ hduty⟩
      · split at hreceive <;> cases hreceive
      · cases hreceive
      · rename_i result hreturned
        rw [hreturned] at hopen
        cases hopen

theorem exists_send (s : State σ α τ) (w : Nat) (r : Record) :
    (∃ s', s.send w r = some s') ∨ ∃ s', s.receive = some s' := by
  by_cases hroom : s.channel.length < channelSize
  · left
    unfold send
    split
    · exact ⟨_, rfl⟩
    · exact ⟨_, if_pos hroom⟩
  · cases hresult : s.receiver.result? with
    | some result =>
        left
        rw [send, Receiver.eq_returned_of_result? hresult]
        exact ⟨_, rfl⟩
    | none =>
        refine Or.inr ((exists_receive hresult).resolve_right ?_)
        rintro ⟨hempty, -⟩
        rw [hempty] at hroom
        exact hroom (by decide)

theorem exists_answer {β : Type} {call : Surroundings σ → Reply σ β} (s : State σ α τ) (w : Nat)
    (c : Collector) (accept : State σ α τ → Except SessionFault β → State σ α τ)
    (hreturns : Surroundings.Return call) :
    (∃ s', s.answer w c (call s.around) accept = some s') ∨
      ((call s.around).verdict = .later ∧
        ∃ state s', { s with remote := state }.answer w c (call ⟨state, s.tree⟩) accept =
          some s') := by
  obtain ⟨hnever, state, result, hresult⟩ := hreturns s.around
  have hresult : (call ⟨state, s.tree⟩).verdict = .now result := hresult
  cases hverdict : (call s.around).verdict with
  | now result =>
      left
      rw [answer, hverdict]
      exact ⟨_, rfl⟩
  | never => exact absurd hverdict hnever
  | later =>
      refine Or.inr ⟨rfl, state, ?_⟩
      rw [answer, hresult]
      exact ⟨_, rfl⟩

section

variable [Rate.Meter α τ] [LE τ] [DecidableLE τ]

theorem work_of_sending {r : Record} (hduty : s.workers[w]? = some (.sending r)) :
    s.step setting (.work w) = s.send w r := by
  rw [step, work, hduty]

theorem goesOn_of_active (hreturns : setting.connector.Returns)
    (hduty : s.workers[w]? = some (.active c)) (hrecord : c.record? = none) :
    s.GoesOn setting := by
  have hact : ∀ state s', { s with remote := state }.act setting w c = some s' →
      { s with remote := state }.step setting (.work w) = some s' := by
    intro state s' hact
    rw [step, work, hduty]
    exact hact
  have hdone : (∃ s', s.act setting w c = some s') → s.GoesOn setting := by
    rintro ⟨s', hself⟩
    exact .worker (hact s.remote s' hself)
  cases hrequest : c.request with
  | gate | save name data | close =>
      refine hdone ?_
      simp only [act, hrequest]
      exact ⟨_, rfl⟩
  | connect =>
      rcases exists_answer s w c (fun t result => t.connected w c result)
        (hreturns.connect w c.subject) with ⟨s', hanswer⟩ | ⟨hlater, state, s', hanswer⟩
      · refine hdone ⟨s', ?_⟩
        simp only [act, hrequest]
        exact hanswer
      · refine .connector hduty (.connect hrequest hlater) (hact state s' ?_)
        simp only [act, hrequest]
        exact hanswer
  | run line =>
      rcases exists_answer s w c (fun t result => t.resume w c (.output result))
        (hreturns.run w c.subject line setting.verbose) with
        ⟨s', hanswer⟩ | ⟨hlater, state, s', hanswer⟩
      · refine hdone ⟨s', ?_⟩
        simp only [act, hrequest]
        exact hanswer
      · refine .connector hduty (.run hrequest hlater) (hact state s' ?_)
        simp only [act, hrequest]
        exact hanswer
  | nothing =>
      obtain ⟨group, subject, stages, sink, phase⟩ := c
      cases phase with
      | finished result => cases hrecord
      | _ => cases hrequest

theorem goesOn_of_seated {duty : Duty τ} (htotal : ∀ a b : τ, a ≤ b ∨ b ≤ a)
    (hreturns : setting.connector.Returns) (hlive : s.Live) (hduty : s.workers[w]? = some duty)
    (hseated : duty.seated = true) : s.GoesOn setting := by
  cases duty with
  | active c => exact goesOn_of_active hreturns hduty (hlive.record? (collector?_eq_some hduty rfl))
  | waiting c due =>
      have hwork : ∀ time, due ≤ time → { s with now := time }.step setting (.work w) =
          some ({ s with now := time }.pass w c) := by
        intro time hdue
        rw [step, work, hduty]
        exact if_pos hdue
      rcases htotal due s.now with hdue | hdue
      · exact .worker (hwork s.now hdue)
      · have hsame : due ≤ due := (htotal due due).elim id id
        exact .clock hduty (if_pos hdue) (hwork due hsame)
  | unanswered c => cases hlive w _ hduty
  | sending r =>
      rcases exists_send s w r with ⟨s', hsend⟩ | ⟨s', hreceive⟩
      · exact .worker ((work_of_sending hduty).trans hsend)
      · exact .receiver hreceive
  | unstarted c | queued c | ended => cases hseated

theorem goesOn_of_open {limit : Option Nat} (htotal : ∀ a b : τ, a ≤ b ∨ b ≤ a)
    (hreturns : setting.connector.Returns) (hlive : s.Live) (hpermitted : Permitted limit s)
    (hlimit : limit ≠ some 0) (hopen : s.receiver.result? = none) : s.GoesOn setting := by
  rcases exists_receive hopen with ⟨s', hreceive⟩ | ⟨-, w, duty, hduty, hnot⟩
  · exact .receiver hreceive
  · cases duty with
    | unstarted c =>
        refine .worker (?_ : s.step setting (.work w) = some (s.begin w c))
        rw [step, work, hduty]
    | queued c =>
        obtain ⟨i, other, hother, hseated⟩ := hpermitted.exists_seated hlimit hduty
        exact goesOn_of_seated htotal hreturns hlive hother hseated
    | ended => cases hnot
    | active c | waiting c due | unanswered c | sending r =>
        exact goesOn_of_seated htotal hreturns hlive hduty rfl

end

end State
end Run

/-!
## Runs of a fleet
-/

namespace Script

theorem cases_of_connect (s : Script) (i : Instance) (before : Surroundings Account) :
    (∃ result, (s.connect i before).verdict = .now result) ∨
      ((s.connect i before).verdict = .later ∧
        ∃ entry, s.callOffOnConnect = some entry ∧ before.state.closes < entry.2) := by
  unfold connect
  dsimp only
  split
  · rename_i id closes hsome
    split
    · split
      · rename_i hfew
        exact Or.inr ⟨rfl, (id, closes), hsome, hfew⟩
      · exact Or.inl ⟨_, rfl⟩
    · left
      split
      · exact ⟨_, rfl⟩
      · split <;> exact ⟨_, rfl⟩
  · left
    split
    · exact ⟨_, rfl⟩
    · split <;> exact ⟨_, rfl⟩

theorem returns {s : Script} (hanswers : s.hanging = []) : s.connector.Returns where
  connect session i around := by
    refine ⟨?_, ⟨0, (s.callOffOnConnect.map Prod.snd).getD 0, []⟩, ?_⟩
    · intro hnever
      rcases s.cases_of_connect i around with ⟨result, hnow⟩ | ⟨hlater, -⟩
      · cases hnow.symm.trans hnever
      · cases hlater.symm.trans hnever
    · refine (s.cases_of_connect i _).resolve_right ?_
      rintro ⟨-, entry, hsome, hfew⟩
      rw [hsome] at hfew
      exact Nat.lt_irrefl _ hfew
  run session i line verbose around := by
    have hnow : ∀ before : Surroundings Account,
        (s.connector.run session i line verbose before).verdict = .now (s.result i line) := by
      intro before
      simp only [connector, run, hanswers, List.contains_nil, Bool.false_eq_true, if_false]
    refine ⟨?_, around.state, s.result i line, hnow _⟩
    intro hnever
    cases (hnow around).symm.trans hnever

end Script

namespace Fleet

open Run State

theorem validate_of_prepare {store : FleetStore} {endings : List String} {folder : Path}
    (hprepare : (prepare store endings).1 = .ok folder) : store.config.validate = .ok () := by
  exact (prepare_eq_ok_iff.1 (Prod.ext hprepare rfl)).2.1

variable {σ : Type} {setting : Setting σ} {stages : List Protocol.Stage} {endings : List String}
  {f : Fleet σ} {folder : Path} {s : State σ Float Rate.Millis}

/--
A run over any fleet whose connector's calls return never comes to a standstill before it
is over, whatever its course and whenever it was called off.  Who is blocked with a record
waits for nobody but the receiver, and the receiver is not blocked then; who is queued
waits for somebody that has a permit.
-/
theorem run_goes_on (hfetching : f.Fetching setting stages endings folder s)
    (hreturns : setting.connector.Returns) (hopen : s.receiver.result? = none) :
    s.GoesOn setting ∧
      (∀ w r, s.workers[w]? = some (.sending r) → s.step setting (.work w) = none →
        ∃ s', s.step setting .receive = some s') ∧
      ∀ (w : Nat) (c : Collector), s.workers[w]? = some (.queued c) →
        ∃ (i : Nat) (duty : Duty Rate.Millis), s.workers[i]? = some duty ∧ duty.seated = true := by
  have hvalid := (FleetConfig.validate_eq_ok_iff.1 (validate_of_prepare hfetching.prepared)).maxSessions
  rw [← config_prepare f.store endings] at hvalid
  have hpermitted : Permitted _ s := (permitted_start rfl).of_reaches hfetching.reached
  have hlimit : (f.prepared endings).store.config.limits.maxSessions.map UInt64.toNat ≠ some 0 := by
    intro hzero
    obtain ⟨n, hsome, hn⟩ := Option.map_eq_some_iff.1 hzero
    rw [UInt64.toNat_inj.1 (hn.trans UInt64.toNat_zero.symm)] at hsome
    exact hvalid hsome
  refine ⟨?_, ?_, fun w c hqueued => hpermitted.exists_seated hlimit hqueued⟩
  · exact goesOn_of_open Nat.le_total hreturns
      ((live_start _ _ _ _ _ _ _).of_reaches hreturns hfetching.reached) hpermitted hlimit hopen
  · intro w r hsending hblocked
    refine (exists_send s w r).resolve_left ?_
    rintro ⟨s', hsend⟩
    rw [work_of_sending hsending, hsend] at hblocked
    cases hblocked

def narrow : Fleet Account :=
  let config := { crowded.store.config with limits := ⟨1000, 100, some 2⟩ }
  { crowded with store := { crowded.store with config := config } }

/-- Ten records are in the channel, two workers have one each, and one waits for a permit. -/
def narrowMidway : Option (State Account Float Rate.Millis) :=
  ((narrow.prepared ["x"]).startRun [] "/logs/demo-logsx").steps callsOffLast
    ((List.range 13).map .work ++
      (List.range 10).flatMap (fun w => List.replicate 4 (.work w)) ++
      List.replicate 3 (.work 10) ++ List.replicate 3 (.work 11) ++ [.callOff])

theorem narrowMidway_facts :
    (narrowMidway.map fun s =>
      ((s.receiver, s.channel.length, s.calledOff), (s.held? 10).isSome,
        (s.step callsOffLast (.work 10)).isNone, s.workers[12]?.any Duty.isQueued)) =
      some ((.receiving 13, channelSize, true), true, true, true) := by
  decide +kernel

theorem run_goes_on_narrow :
    ∃ s, narrow.Fetching callsOffLast [] ["x"] "/logs/demo-logsx" s ∧ s.GoesOn callsOffLast ∧
      s.channel.length = channelSize ∧ s.calledOff = true ∧
      (∃ s', s.step callsOffLast .receive = some s') ∧
      ∃ (i : Nat) (duty : Duty Rate.Millis), s.workers[i]? = some duty ∧ duty.seated = true := by
  obtain ⟨s, hs, hfacts⟩ := Option.map_eq_some_iff.1 narrowMidway_facts
  simp only [Prod.mk.injEq] at hfacts
  obtain ⟨⟨hreceiver, hfull, hcalledOff⟩, hholds, hblocked, hwaits⟩ := hfacts
  have hfetching : narrow.Fetching callsOffLast [] ["x"] "/logs/demo-logsx" s :=
    ⟨by decide +kernel, reaches_of_steps hs⟩
  have hopen : s.receiver.result? = none := by
    rw [hreceiver]
    rfl
  obtain ⟨hgoes, hsenders, hqueue⟩ := run_goes_on hfetching (Script.returns rfl) hopen
  obtain ⟨r, hheld⟩ := Option.isSome_iff_exists.1 hholds
  obtain ⟨c, hqueued⟩ := exists_queued hwaits
  exact ⟨s, hfetching, hgoes, hfull, hcalledOff,
    hsenders 10 r (duty_of_held? hheld) (Option.isNone_iff_eq_none.1 hblocked),
    hqueue 12 c hqueued⟩

end Fleet
end LogHarvest
