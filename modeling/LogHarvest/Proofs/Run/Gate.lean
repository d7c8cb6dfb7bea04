import LogHarvest.Proofs.Run.Workers

/-!
# What a move does at the gate

`cases_of_step` says what a move makes of records and collectors, and leaves aside
the clock, the bucket and the calls.  `cases_at_gate` is about these.  A worker's
move takes a token or reserves one (`passed`, `reserved`), ends a wait (`matured`),
is sent away (`refused`), or has nothing to do with the gate; then the bucket is
what it was and no call is added.
-/

namespace LogHarvest
namespace Run

variable {σ α τ : Type}

def Event.called? : Event τ → Option (Nat × Call × τ)
  | .called worker call time => some (worker, call, time)
  | _ => none

def callFor : Request → Option Call
  | .connect => some .connect
  | .run line => some (.run line)
  | .gate | .save .. | .close | .nothing => none

def nextCall (c : Collector) : Call :=
  match c.phase with
  | .between errand _ _ => .run errand.line
  | _ => .connect

inductive Fits : Request → Response → Prop
  | connected {result : Except SessionFault Unit} : Fits .connect (.connected result)
  | output {line : String} {result : Except SessionFault Text.Bytes} :
      Fits (.run line) (.output result)
  | saved {name : String} {data : Text.Bytes} {result : Except CollectFault Path} :
      Fits (.save name data) (.saved result)
  | closed : Fits .close .closed

/-!
## Collectors at the gate
-/

theorem phase_of_nextCall_connect {c : Collector} (hgate : c.request = .gate)
    (hconnect : nextCall c = .connect) : c.phase = .entering := by
  obtain ⟨group, subject, stages, sink, phase⟩ := c
  cases phase with
  | entering => rfl
  | between _ _ _ => cases hconnect
  | _ => cases hgate

theorem request_proceed (c : Collector) (todo : List Errand) (paths : List Path) :
    callFor { c with phase := Collector.proceed todo paths }.request = none := by
  cases todo <;> rfl

theorem callFor_digest (c : Collector) (errand : Errand) (rest : List Errand)
    (paths : List Path) (output : Text.Bytes) :
    callFor (c.digest errand rest paths output).request = none := by
  cases errand with
  | keep _ => rfl
  | explore _ => exact request_proceed c _ paths

theorem callFor_resume_of_fits {c : Collector} {answer : Response}
    (hfits : Fits c.request answer) : callFor (c.resume answer).request = none := by
  obtain ⟨group, subject, stages, sink, phase⟩ := c
  cases phase with
  | entering => cases hfits
  | connecting =>
      cases hfits with
      | @connected result =>
          cases result with
          | error _ => rfl
          | ok _ => exact request_proceed ⟨group, subject, stages, sink, .connecting⟩ _ []
  | between _ _ _ => cases hfits
  | running errand rest paths =>
      cases hfits with
      | @output _ result =>
          cases result with
          | error _ => rfl
          | ok output =>
              exact callFor_digest ⟨group, subject, stages, sink, .running errand rest paths⟩
                errand rest paths output
  | saving name data rest paths =>
      cases hfits with
      | @saved _ _ result =>
          cases result with
          | error _ => rfl
          | ok _ =>
              exact request_proceed ⟨group, subject, stages, sink, .saving name data rest paths⟩
                rest _
  | closing _ =>
      cases hfits
      rfl
  | finished _ => cases hfits

theorem callFor_resume_calledOff {c : Collector} (hgate : c.request = .gate) :
    callFor (c.resume .calledOff).request = none := by
  obtain ⟨group, subject, stages, sink, phase⟩ := c
  cases phase with
  | entering => rfl
  | between _ _ _ => rfl
  | _ => cases hgate

/-- The collector of a worker that has not begun, or waits for a permit or at the gate. -/
def Duty.resting? : Duty τ → Option Collector
  | .unstarted c | .queued c | .waiting c _ => some c
  | .active _ | .unanswered _ | .sending _ | .ended => none

namespace State

def calls (s : State σ α τ) : List (Nat × Call × τ) :=
  s.history.filterMap Event.called?

/-- The call of the connector that a move makes. -/
def callBy (s : State σ α τ) : Move τ → Option Call
  | .work w =>
      match s.workers[w]? with
      | some (.active c) => callFor c.request
      | _ => none
  | _ => none

structure Alike (s t : State σ α τ) : Prop where
  now : t.now = s.now
  bucket : t.bucket = s.bucket
  workers : t.workers = s.workers
  calls : t.calls = s.calls
  calledOff : s.calledOff = true → t.calledOff = true

/-- What a worker does next makes this of the gate. -/
inductive Turned [Rate.Meter α τ] [LE τ] (s : State σ α τ) (w : Nat) : State σ α τ → Prop
  | skipped {c : Collector} (hduty : s.workers[w]? = some (.unstarted c))
      (hcalledOff : s.calledOff = true) : Turned s w (s.assign w .ended)
  | begun {c : Collector} {duty : Duty τ} {t : State σ α τ}
      (hduty : s.workers[w]? = some (.unstarted c)) (hopen : s.calledOff = false)
      (hnext : duty = .queued c ∨ duty = .active c) (halike : s.Alike t) :
      Turned s w (t.assign w duty)
  | passed {c : Collector} {bucket : Rate.Bucket α τ}
      (hduty : s.workers[w]? = some (.active c)) (hgate : c.request = .gate)
      (htook : s.bucket.acquire s.now = (none, bucket))
      (hfree : s.calledOff = true → (s.bucket.allow s.now).1 = true) :
      Turned s w ({ s with bucket := bucket }.pass w c)
  | reserved {c : Collector} {bucket : Rate.Bucket α τ} {due : τ}
      (hduty : s.workers[w]? = some (.active c)) (hgate : c.request = .gate)
      (htook : s.bucket.acquire s.now = (some due, bucket)) (hopen : s.calledOff = false) :
      Turned s w ({ s with bucket := bucket }.assign w (.waiting c due))
  | refused {c : Collector} {bucket : Rate.Bucket α τ}
      (hduty : s.workers[w]? = some (.active c)) (hgate : c.request = .gate)
      (hempty : s.bucket.allow s.now = (false, bucket)) (hcalledOff : s.calledOff = true) :
      Turned s w ({ s with bucket := bucket }.resume w c .calledOff)
  | matured {c : Collector} {due : τ} (hduty : s.workers[w]? = some (.waiting c due))
      (hdue : due ≤ s.now) : Turned s w (s.pass w c)
  | unanswered {c : Collector} {t : State σ α τ} (hduty : s.workers[w]? = some (.active c))
      (hcall : (callFor c.request).isSome = true) (halike : s.Alike t) :
      Turned s w (t.assign w (.unanswered c))
  | answered {c : Collector} {answer : Response} {t : State σ α τ}
      (hduty : s.workers[w]? = some (.active c)) (hfits : Fits c.request answer)
      (halike : s.Alike t) : Turned s w (t.resume w c answer)
  | sent {r : Record} {t : State σ α τ} (hduty : s.workers[w]? = some (.sending r))
      (halike : s.Alike t) : Turned s w (t.release w)

/-!
## What is like a state
-/

theorem Alike.refl (s : State σ α τ) : s.Alike s where
  now := rfl
  bucket := rfl
  workers := rfl
  calls := rfl
  calledOff := id

theorem Alike.trans {s t u : State σ α τ} (hfirst : s.Alike t) (hsecond : t.Alike u) :
    s.Alike u where
  now := hsecond.now.trans hfirst.now
  bucket := hsecond.bucket.trans hfirst.bucket
  workers := hsecond.workers.trans hfirst.workers
  calls := hsecond.calls.trans hfirst.calls
  calledOff h := hsecond.calledOff (hfirst.calledOff h)

theorem alike_note (s : State σ α τ) {event : Event τ} (hevent : event.called? = none) :
    s.Alike (s.note event) where
  now := rfl
  bucket := rfl
  workers := rfl
  calls := List.filterMap_cons_none hevent
  calledOff := id

theorem alike_withTree (s : State σ α τ) (remote : σ) (tree : Tree) :
    s.Alike ({ s with remote := remote }.withTree tree) := by
  constructor <;> first | rfl | exact id

theorem alike_stopAll (s : State σ α τ) : s.Alike s.stopAll := by
  unfold stopAll
  split
  · exact .refl s
  · constructor <;> first | rfl | exact fun _ => rfl

theorem alike_afterCall {β : Type} (s : State σ α τ) (reply : Reply σ β) :
    s.Alike (s.afterCall reply) := by
  unfold afterCall
  have hafter := s.alike_withTree reply.after.state reply.after.tree
  split
  · exact hafter.trans (alike_stopAll _)
  · exact hafter

theorem alike_merge (s : State σ α τ) (r : Record) (next : Receiver) :
    s.Alike (s.merge r next) := by
  unfold merge
  split
  · dsimp only
    split <;> constructor <;> first | rfl | exact id
  · constructor <;> first | rfl | exact id

theorem alike_receive {s s' : State σ α τ} (hreceive : s.receive = some s') : s.Alike s' := by
  rcases cases_of_receive hreceive with ⟨receiver, -, rfl⟩ | ⟨channel, r, next, -, rfl⟩ |
    ⟨calledOff, rfl⟩
  · constructor <;> first | rfl | exact id
  · have hchannel : s.Alike { s with channel := channel } := by
      constructor <;> first | rfl | exact id
    exact hchannel.trans (alike_merge _ r next)
  · constructor <;> first | rfl | exact id

theorem calls_resume (s : State σ α τ) (w : Nat) (c : Collector) (answer : Response) :
    (s.resume w c answer).calls = s.calls := by
  rcases cases_of_resume s w c answer with hresume | ⟨r, hresume⟩ <;> rw [hresume]
  all_goals rfl

theorem calls_release (s : State σ α τ) (w : Nat) : (s.release w).calls = s.calls := by
  obtain ⟨_, _, _, hrelease, -⟩ := exists_release s w
  rw [hrelease]
  rfl

theorem calls_pass (s : State σ α τ) (w : Nat) (c : Collector) :
    (s.pass w c).calls = (w, nextCall c, s.now) :: s.calls :=
  calls_resume _ w c .passed

/-!
## A worker's moves
-/

variable {setting : Setting σ}

section

variable [Rate.Meter α τ]

variable [LE τ]

theorem turned_of_started {s s' : State σ α τ} {w : Nat} {c : Collector}
    (hduty : s.workers[w]? = some (.unstarted c)) (hstarted : Started s w c s') :
    Turned s w s' := by
  cases hstarted with
  | skipped hcalledOff => exact .skipped hduty hcalledOff
  | unlimited hopen _ => exact .begun hduty hopen (Or.inr rfl) (.refl s)
  | queued hopen _ =>
      refine .begun (t := { s with queue := s.queue ++ [w] }) hduty hopen (Or.inl rfl) ?_
      constructor <;> first | rfl | exact id
  | @admitted free hopen _ =>
      refine .begun (t := { s with permits := some free }) hduty hopen (Or.inr rfl) ?_
      constructor <;> first | rfl | exact id

theorem turned_of_gated {s s' : State σ α τ} {w : Nat} {c : Collector}
    (hduty : s.workers[w]? = some (.active c)) (hgate : c.request = .gate)
    (hgated : Gated s w c s') : Turned s w s' := by
  have hacquire : ∀ {probed}, s.bucket.allow s.now = (false, probed) →
      s.bucket.acquire s.now = probed.reserve s.now := by
    intro probed hallow
    rw [Rate.Bucket.acquire, hallow]
  cases hgated with
  | free hallow =>
      refine .passed hduty hgate ?_ (fun _ => ?_)
      · rw [Rate.Bucket.acquire, hallow]
      · rw [hallow]
  | refused hallow hcalledOff => exact .refused hduty hgate hallow hcalledOff
  | paid hallow hopen hreserve =>
      refine .passed hduty hgate ((hacquire hallow).trans hreserve) (fun hcalledOff => ?_)
      rw [hopen] at hcalledOff
      cases hcalledOff
  | owed hallow hopen hreserve =>
      exact .reserved hduty hgate ((hacquire hallow).trans hreserve) hopen

theorem turned_of_acted {s s' : State σ α τ} {w : Nat} {c : Collector}
    (hduty : s.workers[w]? = some (.active c)) (hacted : Acted setting s w c s') :
    Turned s w s' := by
  have hasked : ∀ {request : Request}, c.request = request → (callFor request).isSome = true →
      (callFor c.request).isSome = true := fun hrequest hcall => hrequest ▸ hcall
  have hfits : ∀ {request : Request} {answer : Response}, c.request = request →
      Fits request answer → Fits c.request answer := fun hrequest hfits => hrequest ▸ hfits
  cases hacted with
  | gate hrequest hgated => exact turned_of_gated hduty hrequest hgated
  | letIn hrequest hverdict =>
      exact .answered hduty (hfits hrequest .connected)
        ((alike_afterCall s _).trans (alike_note _ rfl))
  | keptOut hrequest hverdict =>
      exact .answered hduty (hfits hrequest .connected) (alike_afterCall s _)
  | leftOut hrequest hverdict =>
      exact .unanswered hduty (hasked hrequest rfl) (alike_afterCall s _)
  | ran hrequest hverdict => exact .answered hduty (hfits hrequest .output) (alike_afterCall s _)
  | ranOn hrequest hverdict =>
      exact .unanswered hduty (hasked hrequest rfl) (alike_afterCall s _)
  | saved hrequest =>
      exact .answered hduty (hfits hrequest .saved) (s.alike_withTree s.remote _)
  | closed hrequest =>
      exact .answered hduty (hfits hrequest .closed)
        ((s.alike_withTree _ _).trans (alike_note _ rfl))

end

section

variable [Rate.Meter α τ] [LE τ] [DecidableLE τ]

theorem turned_of_work {s s' : State σ α τ} {w : Nat} (hwork : s.work setting w = some s') :
    Turned s w s' := by
  cases moved_of_work hwork with
  | began hduty hstarted => exact turned_of_started hduty hstarted
  | acted hduty hacted => exact turned_of_acted hduty hacted
  | matured hduty hdue => exact .matured hduty hdue
  | sent hduty hopen hroom =>
      refine .sent (t := { s with channel := _ }) hduty ?_
      constructor <;> first | rfl | exact id
  | dropped hduty hreturned => exact .sent hduty (.refl s)

theorem cases_at_gate {s s' : State σ α τ} {m : Move τ} (hstep : s.step setting m = some s') :
    (s.callBy m = none ∧ ∃ time, s.now ≤ time ∧ s' = { s with now := time }) ∨
      (s.callBy m = none ∧ s.Alike s') ∨
      (∃ w, m = .work w ∧ Turned s w s') ∨
      (s.callBy m = none ∧ ∃ w c due, s.workers[w]? = some (.waiting c due) ∧
        s.calledOff = true ∧
        s' = { s with bucket := s.bucket.handBack s.now }.resume w c .calledOff) := by
  unfold step at hstep
  cases m with
  | tick time =>
      dsimp only at hstep
      split at hstep
      · rename_i htime
        cases hstep
        exact Or.inl ⟨rfl, time, htime, rfl⟩
      · cases hstep
  | callOff =>
      cases hstep
      exact Or.inr (Or.inl ⟨rfl, alike_stopAll s⟩)
  | work w => exact Or.inr (Or.inr (Or.inl ⟨w, rfl, turned_of_work hstep⟩))
  | giveUp w =>
      obtain ⟨c, due, hgaveUp⟩ := gaveUp_of_giveUp hstep
      exact Or.inr (Or.inr (Or.inr ⟨rfl, w, c, due, hgaveUp⟩))
  | receive => exact Or.inr (Or.inl ⟨rfl, alike_receive hstep⟩)

end

/-!
## Duties after a move
-/

theorem lt_length_of_duty {s : State σ α τ} {w : Nat} {duty : Duty τ}
    (hduty : s.workers[w]? = some duty) : w < s.workers.length :=
  (List.getElem?_eq_some_iff.1 hduty).1

theorem duty_resume {s : State σ α τ} {w : Nat} (hw : w < s.workers.length) (c : Collector)
    (answer : Response) (i : Nat) :
    (s.resume w c answer).workers[i]? =
      if i = w then
        some (match (c.resume answer).record? with
          | some r => .sending r
          | none => .active (c.resume answer))
      else s.workers[i]? := by
  cases hrecord : (c.resume answer).record? with
  | none =>
      rw [resume_of_unfinished hrecord]
      exact duty_assign hw _ i
  | some r =>
      rw [resume_of_finished hrecord]
      exact duty_assign hw (.sending r) i

theorem duty_assign_of_ne {s t : State σ α τ} {w i : Nat} {old duty : Duty τ}
    (hold : s.workers[w]? = some old) (hworkers : t.workers = s.workers) (hi : i ≠ w) :
    (t.assign w duty).workers[i]? = s.workers[i]? := by
  have hw := lt_length_of_duty hold
  rw [← hworkers] at hw ⊢
  rw [duty_assign hw, if_neg hi]

theorem duty_resume_of_ne {s t : State σ α τ} {w i : Nat} {old : Duty τ} {c : Collector}
    {answer : Response} (hold : s.workers[w]? = some old) (hworkers : t.workers = s.workers)
    (hi : i ≠ w) : (t.resume w c answer).workers[i]? = s.workers[i]? := by
  have hw := lt_length_of_duty hold
  rw [← hworkers] at hw ⊢
  rw [duty_resume hw, if_neg hi]

theorem Turned.others [Rate.Meter α τ] [LE τ] {s s' : State σ α τ} {w i : Nat}
    (hturned : Turned s w s') (hi : i ≠ w) :
    s'.workers[i]? = s.workers[i]? ∨
      ∃ c, s.workers[i]? = some (.queued c) ∧ s'.workers[i]? = some (.active c) := by
  cases hturned with
  | skipped hduty _ => exact Or.inl (duty_assign_of_ne hduty rfl hi)
  | begun hduty _ _ halike => exact Or.inl (duty_assign_of_ne hduty halike.workers hi)
  | passed hduty _ _ _ => exact Or.inl (duty_resume_of_ne hduty rfl hi)
  | reserved hduty _ _ _ => exact Or.inl (duty_assign_of_ne hduty rfl hi)
  | refused hduty _ _ _ => exact Or.inl (duty_resume_of_ne hduty rfl hi)
  | matured hduty _ => exact Or.inl (duty_resume_of_ne hduty rfl hi)
  | unanswered hduty _ halike => exact Or.inl (duty_assign_of_ne hduty halike.workers hi)
  | answered hduty _ halike => exact Or.inl (duty_resume_of_ne hduty halike.workers hi)
  | @sent r t hduty halike =>
      have hbefore : (t.assign w .ended).workers[i]? = s.workers[i]? :=
        duty_assign_of_ne hduty halike.workers hi
      rcases duty_release t w i with hafter | ⟨c, hqueued, hactive⟩
      · exact Or.inl (hafter.trans hbefore)
      · exact Or.inr ⟨c, hbefore.symm.trans hqueued, hactive⟩

/-!
## Collectors at rest

A worker that has not begun or waits has a collector that wants to pass the gate.
-/

def resting? (s : State σ α τ) (i : Nat) : Option Collector :=
  s.workers[i]?.bind Duty.resting?

def RestsAtGate (s : State σ α τ) : Prop :=
  ∀ i c, s.resting? i = some c → c.request = .gate

theorem RestsAtGate.gate {s : State σ α τ} {w : Nat} {duty : Duty τ} {c : Collector}
    (hrests : s.RestsAtGate) (hduty : s.workers[w]? = some duty)
    (hresting : duty.resting? = some c) : c.request = .gate := by
  refine hrests w c ?_
  rw [resting?, hduty]
  exact hresting

theorem resting?_congr {s t : State σ α τ} (hworkers : t.workers = s.workers) (i : Nat) :
    t.resting? i = s.resting? i := by
  rw [resting?, resting?, hworkers]

theorem resting?_assign {s : State σ α τ} {w : Nat} (hw : w < s.workers.length)
    (duty : Duty τ) (i : Nat) :
    (s.assign w duty).resting? i = if i = w then duty.resting? else s.resting? i := by
  rw [resting?, duty_assign hw]
  split <;> rfl

theorem resting?_resume {s : State σ α τ} {w : Nat} (hw : w < s.workers.length) (c : Collector)
    (answer : Response) (i : Nat) :
    (s.resume w c answer).resting? i = if i = w then none else s.resting? i := by
  rw [resting?, duty_resume hw]
  split
  · cases (c.resume answer).record? <;> rfl
  · rfl

theorem resting?_release {s : State σ α τ} {w i : Nat} {c : Collector}
    (hresting : (s.release w).resting? i = some c) : s.resting? i = some c := by
  have hassign : (s.assign w .ended).resting? i = some c := by
    rw [resting?] at hresting ⊢
    rcases duty_release s w i with hsame | ⟨c', -, hactive⟩
    · rw [← hsame]
      exact hresting
    · rw [hactive] at hresting
      cases hresting
  by_cases hw : w < s.workers.length
  · rw [resting?_assign hw] at hassign
    split at hassign
    · cases hassign
    · exact hassign
  · rw [resting?, assign, List.set_eq_of_length_le (Nat.le_of_not_lt hw)] at hassign
    exact hassign

theorem RestsAtGate.of_assign {s t : State σ α τ} {w : Nat} {old duty : Duty τ}
    (hrests : s.RestsAtGate) (hold : s.workers[w]? = some old) (hworkers : t.workers = s.workers)
    (hnew : ∀ c, duty.resting? = some c → c.request = .gate) :
    (t.assign w duty).RestsAtGate := by
  intro i c hresting
  have hw : w < t.workers.length := by
    rw [hworkers]
    exact lt_length_of_duty hold
  rw [resting?_assign hw, resting?_congr hworkers] at hresting
  split at hresting
  · exact hnew c hresting
  · exact hrests i c hresting

theorem RestsAtGate.of_resume {s t : State σ α τ} {w : Nat} {old : Duty τ} {c : Collector}
    {answer : Response} (hrests : s.RestsAtGate) (hold : s.workers[w]? = some old)
    (hworkers : t.workers = s.workers) : (t.resume w c answer).RestsAtGate := by
  intro i c' hresting
  have hw : w < t.workers.length := by
    rw [hworkers]
    exact lt_length_of_duty hold
  rw [resting?_resume hw, resting?_congr hworkers] at hresting
  split at hresting
  · cases hresting
  · exact hrests i c' hresting

theorem RestsAtGate.of_turned [Rate.Meter α τ] [LE τ] {s s' : State σ α τ} {w : Nat}
    (hrests : s.RestsAtGate) (hturned : Turned s w s') : s'.RestsAtGate := by
  cases hturned with
  | skipped hduty _ => exact hrests.of_assign hduty rfl nofun
  | begun hduty _ hnext halike =>
      refine hrests.of_assign hduty halike.workers ?_
      intro c hresting
      rcases hnext with rfl | rfl
      · cases hresting
        exact hrests.gate hduty rfl
      · cases hresting
  | passed hduty _ _ _ => exact hrests.of_resume hduty rfl
  | reserved hduty hgate _ _ =>
      refine hrests.of_assign hduty rfl ?_
      intro c hresting
      cases hresting
      exact hgate
  | refused hduty _ _ _ => exact hrests.of_resume hduty rfl
  | matured hduty _ => exact hrests.of_resume hduty rfl
  | unanswered hduty _ halike => exact hrests.of_assign hduty halike.workers nofun
  | answered hduty _ halike => exact hrests.of_resume hduty halike.workers
  | sent _ halike =>
      intro i c hresting
      have hbefore := resting?_release hresting
      rw [resting?_congr halike.workers] at hbefore
      exact hrests i c hbefore

/-- A call is added by a worker that finds a token, or whose reservation has matured. -/
theorem Turned.calls [Rate.Meter α τ] [LE τ] {s s' : State σ α τ} {w : Nat}
    (hrests : s.RestsAtGate) (hturned : Turned s w s') :
    s'.calls = s.calls ∨
      ∃ c, c.request = .gate ∧ s'.calls = (w, nextCall c, s.now) :: s.calls ∧
        ((s.workers[w]? = some (.active c) ∧
            (s.calledOff = true → (s.bucket.allow s.now).1 = true)) ∨
          ∃ due, s.workers[w]? = some (.waiting c due) ∧ due ≤ s.now) := by
  cases hturned with
  | skipped _ _ => exact Or.inl rfl
  | begun _ _ _ halike => exact Or.inl halike.calls
  | passed hduty hgate _ hfree =>
      exact Or.inr ⟨_, hgate, calls_pass _ w _, Or.inl ⟨hduty, hfree⟩⟩
  | reserved _ _ _ _ => exact Or.inl rfl
  | refused _ _ _ _ => exact Or.inl (calls_resume _ _ _ _)
  | @matured c due hduty hdue =>
      exact Or.inr ⟨c, hrests.gate hduty rfl, calls_pass s w c, Or.inr ⟨due, hduty, hdue⟩⟩
  | unanswered _ _ halike => exact Or.inl halike.calls
  | answered _ _ halike => exact Or.inl ((calls_resume _ _ _ _).trans halike.calls)
  | sent _ halike => exact Or.inl ((calls_release _ _).trans halike.calls)

theorem restsAtGate_start (store : FleetStore) (stages : List Protocol.Stage) (folder : Path)
    (bucket : Rate.Bucket α τ) (now : τ) (calledOff : Bool) (remote : σ) :
    (start store stages folder bucket now calledOff remote).RestsAtGate := by
  intro i c hresting
  obtain ⟨duty, hduty, hcarries⟩ := Option.bind_eq_some_iff.1 hresting
  obtain ⟨group, member, rfl⟩ := unstarted_of_start hduty
  cases hcarries
  rfl

theorem restsAtGate_of_reaches [Rate.Meter α τ] [LE τ] [DecidableLE τ] {first s : State σ α τ}
    (hfirst : first.RestsAtGate) (hreaches : first.Reaches setting s) : s.RestsAtGate := by
  induction hreaches with
  | here => exact hfirst
  | move _ hstep ih =>
      rcases cases_at_gate hstep with ⟨-, time, -, rfl⟩ | ⟨-, halike⟩ | ⟨w, -, hturned⟩ |
        ⟨-, w, c, due, hduty, -, rfl⟩
      · exact ih
      · intro i c hresting
        rw [resting?_congr halike.workers] at hresting
        exact ih i c hresting
      · exact ih.of_turned hturned
      · exact ih.of_resume hduty rfl

end State
end Run
end LogHarvest
