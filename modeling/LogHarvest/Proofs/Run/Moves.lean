import LogHarvest.Run.Course

/-!
# What a move can do

`Moved` takes a worker's move apart, with what it begins with (`Started`), what its
collector does (`Acted`) and what becomes of that at the gate (`Gated`); `cases_of_receive`
does so with the receiver's.  What holds behind every move is proved from these.

`cases_of_step` says what a move can change.  A move leaves workers and records alone
(`Beside`), or it is a worker's (`Worked`), or it is the receiver's.  A worker's move is
told from its collector's side: the collector gets an answer that fits what it wants
(`Answer`), or waits, or never gets one (`Unanswered`), or its record goes into the
channel.
-/

namespace LogHarvest
namespace Run

variable {σ α τ : Type}

/-!
## Duties
-/

def Duty.collector? : Duty τ → Option Collector
  | .unstarted c | .queued c | .active c | .waiting c _ => some c
  | .unanswered _ | .sending _ | .ended => none

def Duty.record? : Duty τ → Option Record
  | .sending r => some r
  | _ => none

/-- What comes of a worker's writing an output under a name that was handed out. -/
@[irreducible] def Setting.save (setting : Setting σ) (w : Nat) (sink : Artifact.Sink)
    (name : String)
    (data : Text.Bytes) (t : Tree) : Except CollectFault Path × Tree :=
  sink.write (setting.suffix w sink.claimed.length) name data
    (setting.flaw w sink.claimed.length) t

namespace State

def around (s : State σ α τ) : Surroundings σ :=
  ⟨s.remote, s.tree⟩

def collector? (s : State σ α τ) (w : Nat) : Option Collector :=
  s.workers[w]?.bind Duty.collector?

def held? (s : State σ α τ) (w : Nat) : Option Record :=
  s.workers[w]?.bind Duty.record?

def config (s : State σ α τ) : FleetConfig :=
  s.aggregation.store.config

/-!
## Answers
-/

/-- An answer that a collector can get, and what it leaves behind. -/
inductive Answer (setting : Setting σ) (w : Nat) (c : Collector) (before : Surroundings σ) :
    Response → Surroundings σ → Prop
  | passed : Answer setting w c before .passed before
  | calledOff : Answer setting w c before .calledOff before
  | connected {result : Except SessionFault Unit} (hrequest : c.request = .connect)
      (hverdict : (setting.connector.connect w c.subject before).verdict = .now result) :
      Answer setting w c before (.connected result)
        (setting.connector.connect w c.subject before).after
  | output {line : String} {result : Except SessionFault Text.Bytes}
      (hrequest : c.request = .run line)
      (hverdict : (setting.connector.run w c.subject line setting.verbose before).verdict =
        .now result) :
      Answer setting w c before (.output result)
        (setting.connector.run w c.subject line setting.verbose before).after
  | saved {name : String} {data : Text.Bytes} (hrequest : c.request = .save name data) :
      Answer setting w c before (.saved (setting.save w c.sink name data before.tree).1)
        ⟨before.state, (setting.save w c.sink name data before.tree).2⟩
  | closed (hrequest : c.request = .close) :
      Answer setting w c before .closed (setting.connector.close w c.subject before)

inductive Unanswered (setting : Setting σ) (w : Nat) (c : Collector) (before : Surroundings σ) :
    Surroundings σ → Prop
  | connect (hrequest : c.request = .connect)
      (hverdict : (setting.connector.connect w c.subject before).verdict = .never) :
      Unanswered setting w c before (setting.connector.connect w c.subject before).after
  | run {line : String} (hrequest : c.request = .run line)
      (hverdict : (setting.connector.run w c.subject line setting.verbose before).verdict =
        .never) :
      Unanswered setting w c before
        (setting.connector.run w c.subject line setting.verbose before).after

/-!
## Moves
-/

structure Beside (s s' : State σ α τ) : Prop where
  workers : s'.workers = s.workers
  channel : s'.channel = s.channel
  receiver : s'.receiver = s.receiver
  tally : s'.aggregation.tally = s.aggregation.tally
  config : s'.config = s.config
  filed : s'.filed = s.filed
  merged : s'.merged = s.merged
  synced : s'.synced = s.synced
  calledOff : s.calledOff = true → s'.calledOff = true

/-- What a worker's move can lead to. -/
inductive Worked (setting : Setting σ) (s : State σ α τ) (w : Nat) : State σ α τ → Prop
  /-- The run was called off before the worker began. -/
  | skipped {c : Collector} (hcollector : s.collector? w = some c)
      (hcalledOff : s.calledOff = true) : Worked setting s w (s.assign w .ended)
  /-- The worker begins or waits. -/
  | kept {c : Collector} {duty : Duty τ} {t : State σ α τ}
      (hcollector : s.collector? w = some c) (hduty : duty.collector? = some c)
      (hbeside : s.Beside t) (haround : t.around = s.around) :
      Worked setting s w (t.assign w duty)
  | unanswered {c : Collector} {t : State σ α τ} (hcollector : s.collector? w = some c)
      (hnever : Unanswered setting w c s.around t.around) (hbeside : s.Beside t) :
      Worked setting s w (t.assign w (.unanswered c))
  | told {c : Collector} {answer : Response} {t : State σ α τ}
      (hcollector : s.collector? w = some c) (hanswer : Answer setting w c s.around answer t.around)
      (hcalledOff : answer = .calledOff → s.calledOff = true) (hbeside : s.Beside t) :
      Worked setting s w (t.resume w c answer)
  | sent {r : Record} (hheld : s.held? w = some r) (hopen : s.receiver.result? = none)
      (hroom : s.channel.length < channelSize) :
      Worked setting s w ({ s with channel := s.channel ++ [r] }.release w)
  /-- Nobody takes the record any more. -/
  | dropped {r : Record} {result : Except FleetFault Outcome} (hheld : s.held? w = some r)
      (hreturned : s.receiver = .returned result) : Worked setting s w (s.release w)

theorem Beside.refl (s : State σ α τ) : s.Beside s where
  workers := rfl
  channel := rfl
  receiver := rfl
  tally := rfl
  config := rfl
  filed := rfl
  merged := rfl
  synced := rfl
  calledOff := id

theorem returned_congr {s s' : State σ α τ} (hfiled : s'.filed = s.filed) :
    s'.returned = s.returned := by
  rw [returned, returned, hfiled]

theorem Beside.trans {s t u : State σ α τ} (hfirst : s.Beside t) (hsecond : t.Beside u) :
    s.Beside u where
  workers := hsecond.workers.trans hfirst.workers
  channel := hsecond.channel.trans hfirst.channel
  receiver := hsecond.receiver.trans hfirst.receiver
  tally := hsecond.tally.trans hfirst.tally
  config := hsecond.config.trans hfirst.config
  filed := hsecond.filed.trans hfirst.filed
  merged := hsecond.merged.trans hfirst.merged
  synced := hsecond.synced.trans hfirst.synced
  calledOff h := hsecond.calledOff (hfirst.calledOff h)

/-!
## What lies beside a state
-/

@[simp] theorem around_note (s : State σ α τ) (event : Event τ) :
    (s.note event).around = s.around := rfl

theorem beside_stopAll (s : State σ α τ) : s.Beside s.stopAll := by
  unfold stopAll
  split
  · exact .refl s
  · constructor <;> first | rfl | exact fun _ => rfl

@[simp] theorem around_stopAll (s : State σ α τ) : s.stopAll.around = s.around := by
  unfold stopAll
  split <;> rfl

theorem beside_note (s : State σ α τ) {event : Event τ} (hfiled : event.filed? = none)
    (hmerged : event.merged? = none) (hsynced : event.synced? = none) :
    s.Beside (s.note event) where
  workers := rfl
  channel := rfl
  receiver := rfl
  tally := rfl
  config := rfl
  filed := List.filterMap_cons_none hfiled
  merged := List.filterMap_cons_none hmerged
  synced := List.filterMap_cons_none hsynced
  calledOff := id

theorem beside_withTree (s : State σ α τ) (remote : σ) (tree : Tree) :
    s.Beside ({ s with remote := remote }.withTree tree) := by
  constructor <;> first | rfl | exact id

theorem beside_afterCall {β : Type} (s : State σ α τ) (reply : Reply σ β) :
    s.Beside (s.afterCall reply) := by
  unfold afterCall
  have hafter := s.beside_withTree reply.after.state reply.after.tree
  split
  · exact hafter.trans (beside_stopAll _)
  · exact hafter

@[simp] theorem around_afterCall {β : Type} (s : State σ α τ) (reply : Reply σ β) :
    (s.afterCall reply).around = reply.after := by
  unfold afterCall
  split
  · rw [around_stopAll]
    rfl
  · rfl

theorem collector?_eq_some {s : State σ α τ} {w : Nat} {c : Collector} {duty : Duty τ}
    (hduty : s.workers[w]? = some duty) (hcollector : duty.collector? = some c) :
    s.collector? w = some c := by
  rw [collector?, hduty]
  exact hcollector

theorem cases_of_resume (s : State σ α τ) (w : Nat) (c : Collector) (answer : Response) :
    s.resume w c answer = s.assign w (.active (c.resume answer)) ∨
      ∃ r, s.resume w c answer =
        (s.assign w (.sending r)).note (.returned w r (c.resume answer).sink) := by
  unfold resume
  dsimp only
  split
  · exact Or.inr ⟨_, rfl⟩
  · exact Or.inl rfl

theorem exists_release (s : State σ α τ) (w : Nat) :
    ∃ workers permits queue,
      s.release w = { s with workers := workers, permits := permits, queue := queue } ∧
        workers.length = s.workers.length := by
  unfold release
  dsimp only
  split
  · exact ⟨_, _, _, rfl, List.length_set⟩
  · exact ⟨_, _, _, rfl, List.length_set⟩
  · split
    · exact ⟨_, _, _, rfl, by rw [List.length_set, assign, List.length_set]⟩
    · exact ⟨_, _, _, rfl, List.length_set⟩

/-!
## Moves taken apart
-/

inductive Gated [Rate.Meter α τ] (s : State σ α τ) (w : Nat) (c : Collector) :
    State σ α τ → Prop
  | free {bucket : Rate.Bucket α τ} (hallow : s.bucket.allow s.now = (true, bucket)) :
      Gated s w c ({ s with bucket := bucket }.pass w c)
  | refused {bucket : Rate.Bucket α τ} (hallow : s.bucket.allow s.now = (false, bucket))
      (hcalledOff : s.calledOff = true) :
      Gated s w c ({ s with bucket := bucket }.resume w c .calledOff)
  | paid {probed bucket : Rate.Bucket α τ} (hallow : s.bucket.allow s.now = (false, probed))
      (hopen : s.calledOff = false) (hreserve : probed.reserve s.now = (none, bucket)) :
      Gated s w c ({ s with bucket := bucket }.pass w c)
  | owed {probed bucket : Rate.Bucket α τ} {due : τ}
      (hallow : s.bucket.allow s.now = (false, probed)) (hopen : s.calledOff = false)
      (hreserve : probed.reserve s.now = (some due, bucket)) :
      Gated s w c ({ s with bucket := bucket }.assign w (.waiting c due))

theorem gated_atGate [Rate.Meter α τ] (s : State σ α τ) (w : Nat) (c : Collector) :
    Gated s w c (s.atGate w c) := by
  unfold atGate
  split
  · rename_i bucket hallow
    exact .free hallow
  · rename_i probed hallow
    split
    · rename_i hcalledOff
      exact .refused hallow hcalledOff
    · rename_i hopen
      rw [Bool.not_eq_true] at hopen
      split
      · rename_i bucket hreserve
        exact .paid hallow hopen hreserve
      · rename_i due bucket hreserve
        exact .owed hallow hopen hreserve

/-- What the move of a collector comes to that is neither waiting nor through. -/
inductive Acted [Rate.Meter α τ] (setting : Setting σ) (s : State σ α τ) (w : Nat) (c : Collector) :
    State σ α τ → Prop
  | gate {s' : State σ α τ} (hrequest : c.request = .gate) (hgated : Gated s w c s') :
      Acted setting s w c s'
  | letIn (hrequest : c.request = .connect)
      (hverdict : (setting.connector.connect w c.subject s.around).verdict = .now (.ok ())) :
      Acted setting s w c
        (((s.afterCall (setting.connector.connect w c.subject s.around)).note
          (.opened w)).resume w c
          (.connected (.ok ())))
  | keptOut {cause : SessionFault} (hrequest : c.request = .connect)
      (hverdict : (setting.connector.connect w c.subject s.around).verdict = .now (.error cause)) :
      Acted setting s w c
        ((s.afterCall (setting.connector.connect w c.subject s.around)).resume w c
          (.connected (.error cause)))
  | leftOut (hrequest : c.request = .connect)
      (hverdict : (setting.connector.connect w c.subject s.around).verdict = .never) :
      Acted setting s w c
        ((s.afterCall (setting.connector.connect w c.subject s.around)).assign w (.unanswered c))
  | ran {line : String} {result : Except SessionFault Text.Bytes} (hrequest : c.request = .run line)
      (hverdict : (setting.connector.run w c.subject line setting.verbose s.around).verdict =
        .now result) :
      Acted setting s w c
        ((s.afterCall (setting.connector.run w c.subject line setting.verbose s.around)).resume w c
          (.output result))
  | ranOn {line : String} (hrequest : c.request = .run line)
      (hverdict : (setting.connector.run w c.subject line setting.verbose s.around).verdict =
        .never) :
      Acted setting s w c
        ((s.afterCall (setting.connector.run w c.subject line setting.verbose s.around)).assign w
          (.unanswered c))
  | saved {name : String} {data : Text.Bytes} (hrequest : c.request = .save name data) :
      Acted setting s w c
        ((s.withTree (setting.save w c.sink name data s.tree).2).resume w c
          (.saved (setting.save w c.sink name data s.tree).1))
  | closed (hrequest : c.request = .close) :
      Acted setting s w c
        ((({ s with remote := (setting.connector.close w c.subject s.around).state }.withTree
          (setting.connector.close w c.subject s.around).tree).note (.closed w)).resume w c .closed)

theorem acted_of_act [Rate.Meter α τ] {setting : Setting σ} {s s' : State σ α τ} {w : Nat}
    {c : Collector} (hact : s.act setting w c = some s') : Acted setting s w c s' := by
  unfold act at hact
  cases hrequest : c.request with
  | gate =>
      simp only [hrequest, Option.some.injEq] at hact
      rw [← hact]
      exact .gate hrequest (gated_atGate s w c)
  | connect =>
      simp only [hrequest, answer] at hact
      split at hact
      · cases hact
      · rename_i hverdict
        cases hact
        exact .leftOut hrequest hverdict
      · rename_i result hverdict
        cases hact
        cases result with
        | ok _ => exact .letIn hrequest hverdict
        | error cause => exact .keptOut hrequest hverdict
  | run line =>
      simp only [hrequest, answer] at hact
      split at hact
      · cases hact
      · rename_i hverdict
        cases hact
        exact .ranOn hrequest hverdict
      · rename_i result hverdict
        cases hact
        exact .ran hrequest hverdict
  | save name data =>
      have hsaved : Acted setting s w c _ := .saved hrequest
      unfold Setting.save at hsaved
      simp only [hrequest, Option.some.injEq] at hact
      rw [← hact]
      exact hsaved
  | close =>
      simp only [hrequest, Option.some.injEq] at hact
      rw [← hact]
      exact .closed hrequest
  | nothing =>
      simp only [hrequest] at hact
      cases hact

inductive Started (s : State σ α τ) (w : Nat) (c : Collector) : State σ α τ → Prop
  | skipped (hcalledOff : s.calledOff = true) : Started s w c (s.assign w .ended)
  | unlimited (hopen : s.calledOff = false) (hpermits : s.permits = none) :
      Started s w c (s.assign w (.active c))
  | queued (hopen : s.calledOff = false) (hpermits : s.permits = some 0) :
      Started s w c ({ s with queue := s.queue ++ [w] }.assign w (.queued c))
  | admitted {free : Nat} (hopen : s.calledOff = false) (hpermits : s.permits = some (free + 1)) :
      Started s w c ({ s with permits := some free }.assign w (.active c))

theorem started_begin (s : State σ α τ) (w : Nat) (c : Collector) :
    Started s w c (s.begin w c) := by
  unfold begin
  split
  · rename_i hcalledOff
    exact .skipped hcalledOff
  · rename_i hopen
    rw [Bool.not_eq_true] at hopen
    split
    · rename_i hpermits
      exact .unlimited hopen hpermits
    · rename_i hpermits
      exact .queued hopen hpermits
    · rename_i free hpermits
      exact .admitted hopen hpermits

inductive Moved [Rate.Meter α τ] [LE τ] (setting : Setting σ) (s : State σ α τ) (w : Nat) :
    State σ α τ → Prop
  | began {c : Collector} {s' : State σ α τ} (hduty : s.workers[w]? = some (.unstarted c))
      (hstarted : Started s w c s') : Moved setting s w s'
  | acted {c : Collector} {s' : State σ α τ} (hduty : s.workers[w]? = some (.active c))
      (hacted : Acted setting s w c s') : Moved setting s w s'
  | matured {c : Collector} {due : τ} (hduty : s.workers[w]? = some (.waiting c due))
      (hdue : due ≤ s.now) : Moved setting s w (s.pass w c)
  | sent {r : Record} (hduty : s.workers[w]? = some (.sending r))
      (hopen : s.receiver.result? = none) (hroom : s.channel.length < channelSize) :
      Moved setting s w ({ s with channel := s.channel ++ [r] }.release w)
  /-- Nobody takes the record any more. -/
  | dropped {r : Record} {result : Except FleetFault Outcome}
      (hduty : s.workers[w]? = some (.sending r)) (hreturned : s.receiver = .returned result) :
      Moved setting s w (s.release w)

theorem moved_of_work [Rate.Meter α τ] [LE τ] [DecidableLE τ] {setting : Setting σ}
    {s s' : State σ α τ} {w : Nat} (hwork : s.work setting w = some s') : Moved setting s w s' := by
  unfold work at hwork
  split at hwork
  · rename_i c hduty
    cases hwork
    exact .began hduty (started_begin s w c)
  · rename_i c hduty
    exact .acted hduty (acted_of_act hwork)
  · rename_i c due hduty
    split at hwork
    · rename_i hdue
      cases hwork
      exact .matured hduty hdue
    · cases hwork
  · rename_i r hduty
    unfold send at hwork
    split at hwork
    · rename_i result hreturned
      cases hwork
      exact .dropped hduty hreturned
    · rename_i hnot
      split at hwork
      · rename_i hroom
        cases hwork
        refine .sent hduty ?_ hroom
        cases hreceiver : s.receiver with
        | returned result => exact absurd hreceiver (hnot result)
        | _ => rfl
      · cases hwork
  all_goals cases hwork

theorem gaveUp_of_giveUp [Rate.Meter α τ] {s s' : State σ α τ} {w : Nat}
    (hgiveUp : s.giveUp w = some s') :
    ∃ c due, s.workers[w]? = some (.waiting c due) ∧ s.calledOff = true ∧
      s' = { s with bucket := s.bucket.handBack s.now }.resume w c .calledOff := by
  unfold giveUp at hgiveUp
  split at hgiveUp
  · rename_i c due hduty
    split at hgiveUp
    · rename_i hcalledOff
      cases hgiveUp
      exact ⟨c, due, hduty, hcalledOff, rfl⟩
    · cases hgiveUp
  · cases hgiveUp

theorem cases_of_receive {s s' : State σ α τ} (hreceive : s.receive = some s') :
    (∃ receiver, receiver.result? = none ∧ s' = { s with receiver := receiver }) ∨
      (∃ channel r next, next.result? = none ∧ s' = { s with channel := channel }.merge r next) ∨
      ∃ calledOff, s' = s.finish calledOff := by
  unfold receive at hreceive
  split at hreceive
  · cases hreceive
    exact .inl ⟨_, rfl, rfl⟩
  · split at hreceive
    · cases hreceive
      exact .inl ⟨_, rfl, rfl⟩
    · split at hreceive
      · cases hreceive
        exact .inr (.inl ⟨_, _, _, rfl, rfl⟩)
      · split at hreceive
        · cases hreceive
          exact .inl ⟨_, rfl, rfl⟩
        · cases hreceive
  · split at hreceive
    · cases hreceive
      exact .inr (.inl ⟨_, _, _, rfl, rfl⟩)
    · cases hreceive
      exact .inl ⟨_, rfl, rfl⟩
  · cases hreceive
    exact .inr (.inr ⟨_, rfl⟩)
  · cases hreceive

/-!
## A worker's moves
-/

theorem worked_of_started {setting : Setting σ} {s s' : State σ α τ} {w : Nat} {c : Collector}
    (hcollector : s.collector? w = some c) (hstarted : Started s w c s') :
    Worked setting s w s' := by
  cases hstarted with
  | skipped hcalledOff => exact .skipped hcollector hcalledOff
  | unlimited _ _ => exact .kept hcollector rfl (.refl s) rfl
  | queued _ _ =>
      refine .kept (t := { s with queue := s.queue ++ [w] }) hcollector rfl ?_ rfl
      constructor <;> first | rfl | exact id
  | @admitted free _ _ =>
      refine .kept (t := { s with permits := some free }) hcollector rfl ?_ rfl
      constructor <;> first | rfl | exact id

theorem worked_of_pass {setting : Setting σ} {s t : State σ α τ} {w : Nat} {c : Collector}
    (hcollector : s.collector? w = some c) (hbeside : s.Beside t) (haround : t.around = s.around) :
    Worked setting s w (t.pass w c) := by
  unfold pass
  refine .told hcollector ?_ (fun h => by cases h) (hbeside.trans (beside_note t rfl rfl rfl))
  rw [around_note, haround]
  exact .passed

theorem worked_of_calledOff {setting : Setting σ} {s t : State σ α τ} {w : Nat} {c : Collector}
    (hcollector : s.collector? w = some c) (hbeside : s.Beside t) (haround : t.around = s.around)
    (hcalledOff : s.calledOff = true) : Worked setting s w (t.resume w c .calledOff) := by
  refine .told hcollector ?_ (fun _ => hcalledOff) hbeside
  rw [haround]
  exact .calledOff

theorem worked_of_gated [Rate.Meter α τ] {setting : Setting σ} {s s' : State σ α τ} {w : Nat}
    {c : Collector} (hcollector : s.collector? w = some c) (hgated : Gated s w c s') :
    Worked setting s w s' := by
  have hbeside : ∀ bucket, s.Beside { s with bucket := bucket } := by
    intro bucket
    constructor <;> first | rfl | exact id
  cases hgated with
  | free _ => exact worked_of_pass hcollector (hbeside _) rfl
  | refused _ hcalledOff => exact worked_of_calledOff hcollector (hbeside _) rfl hcalledOff
  | paid _ _ _ => exact worked_of_pass hcollector (hbeside _) rfl
  | owed _ _ _ => exact .kept hcollector rfl (hbeside _) rfl

theorem worked_of_acted [Rate.Meter α τ] {setting : Setting σ} {s s' : State σ α τ} {w : Nat}
    {c : Collector} (hcollector : s.collector? w = some c) (hacted : Acted setting s w c s') :
    Worked setting s w s' := by
  cases hacted with
  | gate hrequest hgated => exact worked_of_gated hcollector hgated
  | letIn hrequest hverdict =>
      refine .told hcollector ?_ nofun
        ((beside_afterCall s _).trans (beside_note _ rfl rfl rfl))
      rw [around_note, around_afterCall]
      exact .connected hrequest hverdict
  | keptOut hrequest hverdict =>
      refine .told hcollector ?_ nofun (beside_afterCall s _)
      rw [around_afterCall]
      exact .connected hrequest hverdict
  | leftOut hrequest hverdict =>
      refine .unanswered hcollector ?_ (beside_afterCall s _)
      rw [around_afterCall]
      exact .connect hrequest hverdict
  | ran hrequest hverdict =>
      refine .told hcollector ?_ nofun (beside_afterCall s _)
      rw [around_afterCall]
      exact .output hrequest hverdict
  | ranOn hrequest hverdict =>
      refine .unanswered hcollector ?_ (beside_afterCall s _)
      rw [around_afterCall]
      exact .run hrequest hverdict
  | saved hrequest =>
      exact .told hcollector (.saved hrequest) nofun (s.beside_withTree s.remote _)
  | closed hrequest =>
      refine .told hcollector ?_ nofun ((s.beside_withTree _ _).trans (beside_note _ rfl rfl rfl))
      exact .closed hrequest

/-!
## All moves
-/

variable [Rate.Meter α τ] {setting : Setting σ} {s s' : State σ α τ}

theorem worked_of_work [LE τ] [DecidableLE τ] {w : Nat} (hwork : s.work setting w = some s') :
    Worked setting s w s' := by
  have hheld : ∀ {r : Record}, s.workers[w]? = some (.sending r) → s.held? w = some r := by
    intro r hduty
    rw [held?, hduty]
    rfl
  cases moved_of_work hwork with
  | began hduty hstarted => exact worked_of_started (collector?_eq_some hduty rfl) hstarted
  | acted hduty hacted => exact worked_of_acted (collector?_eq_some hduty rfl) hacted
  | matured hduty hdue => exact worked_of_pass (collector?_eq_some hduty rfl) (.refl s) rfl
  | sent hduty hopen hroom => exact .sent (hheld hduty) hopen hroom
  | dropped hduty hreturned => exact .dropped (hheld hduty) hreturned

theorem worked_of_giveUp {w : Nat} (hgiveUp : s.giveUp w = some s') :
    Worked setting s w s' := by
  obtain ⟨c, due, hduty, hcalledOff, rfl⟩ := gaveUp_of_giveUp hgiveUp
  exact worked_of_calledOff (collector?_eq_some hduty rfl)
    (by constructor <;> first | rfl | exact id) rfl hcalledOff

theorem cases_of_step [LE τ] [DecidableLE τ] {m : Move τ} (hstep : s.step setting m = some s') :
    (s.Beside s' ∧ s'.around = s.around) ∨ (∃ w, Worked setting s w s') ∨
      s.receive = some s' := by
  cases m with
  | tick time =>
      simp only [step] at hstep
      split at hstep
      · cases hstep
        exact Or.inl ⟨by constructor <;> first | rfl | exact id, rfl⟩
      · cases hstep
  | callOff =>
      cases hstep
      exact Or.inl ⟨beside_stopAll s, around_stopAll s⟩
  | work w => exact Or.inr (Or.inl ⟨w, worked_of_work hstep⟩)
  | giveUp w => exact Or.inr (Or.inl ⟨w, worked_of_giveUp hstep⟩)
  | receive => exact Or.inr (Or.inr hstep)

end State
end Run
end LogHarvest
