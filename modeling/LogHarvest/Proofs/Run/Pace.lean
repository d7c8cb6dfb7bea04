import LogHarvest.Proofs.Rate.Cover
import LogHarvest.Proofs.Run.Calls
import LogHarvest.Session.Rehearsal

/-!
# How fast a run calls

All calls of a run pass one gate, each of them once.  So there are never more calls
than tokens that were taken, and a token that is reserved in advance is used when it
has matured, not before.  In exact arithmetic this bounds the calls up to any time
(`calls_le_rate`), whatever course the run takes and whenever it is called off.

The invariant `Paced` counts the calls up to a time together with the reservations
that mature by then; a wait that ends moves from the one count to the other.
-/

namespace LogHarvest
namespace Run

variable {σ α τ : Type}

def Duty.due? : Duty τ → Option τ
  | .waiting _ due => some due
  | _ => none

namespace State

variable {setting : Setting σ}

def due? (s : State σ α τ) (w : Nat) : Option τ :=
  s.workers[w]?.bind Duty.due?

def waits (s : State σ α τ) (when : τ → Bool) : Nat :=
  s.workers.countP fun duty => duty.due?.any when

/-!
## What a worker's move makes of a count
-/

theorem due?_of_duty {s : State σ α τ} {w : Nat} {duty : Duty τ}
    (hduty : s.workers[w]? = some duty) : s.due? w = duty.due? := by
  rw [due?, hduty]
  rfl

theorem due?_assign {s t : State σ α τ} {w : Nat} {old : Duty τ} (duty : Duty τ)
    (hold : s.workers[w]? = some old) (hworkers : t.workers = s.workers) :
    (t.assign w duty).due? w = duty.due? := by
  have hw := lt_length_of_duty hold
  rw [← hworkers] at hw
  rw [due?, duty_assign hw, if_pos rfl]
  rfl

theorem due?_resume {s t : State σ α τ} {w : Nat} {old : Duty τ} {c : Collector}
    {answer : Response} (hold : s.workers[w]? = some old) (hworkers : t.workers = s.workers) :
    (t.resume w c answer).due? w = none := by
  have hw := lt_length_of_duty hold
  rw [← hworkers] at hw
  rw [due?, duty_resume hw, if_pos rfl]
  cases (c.resume answer).record? <;> rfl

theorem due?_release {s t : State σ α τ} {w : Nat} {old : Duty τ}
    (hold : s.workers[w]? = some old) (hworkers : t.workers = s.workers) :
    (t.release w).due? w = none := by
  rcases duty_release t w w with hended | ⟨c, -, hactive⟩
  · rw [due?, hended]
    exact due?_assign .ended hold hworkers
  · exact due?_of_duty hactive

section

variable [Rate.Meter α τ] [LE τ] {s s' : State σ α τ} {w : Nat}

theorem Turned.waits (hrests : s.RestsAtGate) (hturned : Turned s w s') (when : τ → Bool) :
    s'.waits when + ((s.due? w).any when).toNat = s.waits when + ((s'.due? w).any when).toNat := by
  have hcount := hturned.countP (p := fun duty => duty.due?.any when) (fun _ _ => rfl) hrests
  have hdue : ∀ t : State σ α τ,
      t.workers[w]?.any (fun duty => duty.due?.any when) = (t.due? w).any when := by
    intro t
    rw [due?]
    cases t.workers[w]? <;> rfl
  rw [hdue, hdue] at hcount
  exact hcount

end

theorem waits_resume {s t : State σ α τ} {w : Nat} {old : Duty τ} {c : Collector}
    {answer : Response} (hold : s.workers[w]? = some old) (hworkers : t.workers = s.workers)
    (when : τ → Bool) :
    (t.resume w c answer).waits when + (old.due?.any when).toNat = s.waits when := by
  refine countP_resume (p := fun duty => duty.due?.any when) hold hworkers ?_
  have hdue : (t.resume w c answer).due? w = none := due?_resume hold hworkers
  rw [due?] at hdue
  cases hduty : (t.resume w c answer).workers[w]? with
  | none => rfl
  | some duty =>
      rw [hduty] at hdue
      have hdue' : duty.due? = none := hdue
      rw [Option.any_some, hdue']
      rfl

theorem waits_assign {s t : State σ α τ} {w : Nat} {old duty : Duty τ}
    (hold : s.workers[w]? = some old) (hworkers : t.workers = s.workers) (when : τ → Bool) :
    (t.assign w duty).waits when + (old.due?.any when).toNat =
      s.waits when + (duty.due?.any when).toNat :=
  countP_assign (p := fun duty => duty.due?.any when) hold hworkers

/-!
## Tokens and reservations
-/

section

variable {first s s' : State σ Rat Rat} {w : Nat} {created qps burst : Rat}

def startedBy (s : State σ α Rat) (time : Rat) : Nat :=
  s.calls.countP fun call => call.2.2 ≤ time

/-- Whatever was taken is covered, and up to any time no more is used than has come in. -/
structure Paced (created qps burst : Rat) (s : State σ Rat Rat) : Prop where
  rate : s.bucket.qps = qps
  capacity : s.bucket.burst = burst
  last : s.bucket.last ≤ s.now
  covers : s.bucket.Covers created (s.calls.length + s.waits fun _ => true)
  used : ∀ time, created ≤ time →
    ((s.startedBy time + s.waits fun due => due ≤ time : Nat) : Rat) ≤
      burst + qps * (time - created)

theorem startedBy_le (s : State σ α Rat) (time : Rat) : s.startedBy time ≤ s.calls.length :=
  List.countP_le_length

theorem waits_le (s : State σ α Rat) (when : Rat → Bool) :
    s.waits when ≤ s.waits fun _ => true := by
  refine List.countP_mono_left ?_
  intro duty _ hwhen
  cases hdue : duty.due? with
  | none =>
      rw [hdue] at hwhen
      cases hwhen
  | some due => rfl

theorem bucket_resume (s : State σ α τ) (w : Nat) (c : Collector) (answer : Response) :
    (s.resume w c answer).bucket = s.bucket ∧ (s.resume w c answer).now = s.now := by
  rcases cases_of_resume s w c answer with hresume | ⟨r, hresume⟩ <;> rw [hresume]
  all_goals exact ⟨rfl, rfl⟩

theorem bucket_release (s : State σ α τ) (w : Nat) :
    (s.release w).bucket = s.bucket ∧ (s.release w).now = s.now := by
  obtain ⟨_, _, _, hrelease, -⟩ := exists_release s w
  rw [hrelease]
  exact ⟨rfl, rfl⟩

theorem Paced.of_same (hpaced : Paced created qps burst s) (hnow : s.now ≤ s'.now)
    (hbucket : s'.bucket = s.bucket) (hcalls : s'.calls = s.calls)
    (hwaits : ∀ when, s'.waits when = s.waits when) : Paced created qps burst s' where
  rate := by rw [hbucket, hpaced.rate]
  capacity := by rw [hbucket, hpaced.capacity]
  last := by
    rw [hbucket]
    exact le_trans hpaced.last hnow
  covers := by
    rw [hbucket, hcalls, hwaits]
    exact hpaced.covers
  used := by
    intro time htime
    rw [startedBy, hcalls, hwaits]
    exact hpaced.used time htime

theorem Paced.of_dated {bucket : Rate.Bucket Rat Rat} (hpaced : Paced created qps burst s)
    (hbucket : s'.bucket = bucket ∧ s'.now = s.now) (hdated : s.bucket.Dated bucket s.now)
    (hcovers : bucket.Covers created (s'.calls.length + s'.waits fun _ => true))
    (hused : ∀ time, created ≤ time →
      s'.startedBy time + (s'.waits fun due => due ≤ time) ≤
          s.startedBy time + (s.waits fun due => due ≤ time) ∨
        ((s'.calls.length + s'.waits fun _ => true : Nat) : Rat) ≤
          burst + qps * (time - created)) :
    Paced created qps burst s' where
  rate := by rw [hbucket.1, hdated.qps, hpaced.rate]
  capacity := by rw [hbucket.1, hdated.burst, hpaced.capacity]
  last := by rw [hbucket.1, hbucket.2, hdated.last]
  covers := by
    rw [hbucket.1]
    exact hcovers
  used := by
    intro time htime
    rcases hused time htime with hless | hall
    · have hcast : ((s'.startedBy time + s'.waits fun due => due ≤ time : Nat) : Rat) ≤
          ((s.startedBy time + s.waits fun due => due ≤ time : Nat) : Rat) := by
        exact_mod_cast hless
      exact le_trans hcast (hpaced.used time htime)
    · have hcast : ((s'.startedBy time + s'.waits fun due => due ≤ time : Nat) : Rat) ≤
          ((s'.calls.length + s'.waits fun _ => true : Nat) : Rat) := by
        exact_mod_cast Nat.add_le_add (startedBy_le s' time) (waits_le s' _)
      exact le_trans hcast hall

theorem startedBy_cons {call : Nat × Call × Rat} (hcalls : s'.calls = call :: s.calls)
    (time : Rat) :
    s'.startedBy time = s.startedBy time + if call.2.2 ≤ time then 1 else 0 := by
  rw [startedBy, hcalls, List.countP_cons]
  simp [startedBy]

theorem le_later {taken : Nat} {start time : Rat} (hqps : 0 < qps)
    (htaken : (taken : Rat) ≤ burst + qps * (start - created)) (htime : start ≤ time) :
    (taken : Rat) ≤ burst + qps * (time - created) := by
  have hlater : qps * (start - created) ≤ qps * (time - created) :=
    mul_le_mul_of_nonneg_left (by linarith) (le_of_lt hqps)
  linarith

theorem Paced.of_taken {bucket : Rate.Bucket Rat Rat} {ready : Rat}
    (hpaced : Paced created qps burst s) (hbucket : s'.bucket = bucket ∧ s'.now = s.now)
    (hdated : s.bucket.Dated bucket s.now)
    (hcovers : bucket.Covers created (s.calls.length + (s.waits fun _ => true) + 1))
    (htotal : s'.calls.length + (s'.waits fun _ => true) =
      s.calls.length + (s.waits fun _ => true) + 1)
    (hready : ((s.calls.length + (s.waits fun _ => true) + 1 : Nat) : Rat) ≤
      bucket.burst + bucket.qps * (ready - created))
    (hbefore : ∀ time, ¬ ready ≤ time →
      s'.startedBy time + (s'.waits fun due => due ≤ time) =
        s.startedBy time + (s.waits fun due => due ≤ time)) :
    Paced created qps burst s' := by
  refine hpaced.of_dated hbucket hdated (by rw [htotal]; exact hcovers) ?_
  intro time htime
  by_cases hlater : ready ≤ time
  · right
    rw [htotal]
    have hready' := le_later hcovers.positive hready hlater
    rw [hdated.qps, hdated.burst, hpaced.rate, hpaced.capacity] at hready'
    exact hready'
  · left
    exact le_of_eq (hbefore time hlater)

theorem Paced.of_passed {bucket : Rate.Bucket Rat Rat} {c : Collector}
    (hpaced : Paced created qps burst s) (hduty : s.workers[w]? = some (.active c))
    (htook : s.bucket.acquire s.now = (none, bucket)) :
    Paced created qps burst ({ s with bucket := bucket }.pass w c) := by
  obtain ⟨hcovers, hdated, hdue⟩ := hpaced.covers.acquire hpaced.last htook
  have hbalance : 0 ≤ bucket.balance := by
    rcases hdue with ⟨-, hbalance⟩ | hdue
    · exact hbalance
    · cases hdue
  have hcalls := calls_pass { s with bucket := bucket } w c
  have hwaits : ∀ when, ({ s with bucket := bucket }.pass w c).waits when = s.waits when :=
    waits_resume hduty rfl
  have hready := hcovers.taken_le hbalance
  rw [hdated.last] at hready
  refine hpaced.of_taken (bucket_resume _ _ _ _) hdated hcovers ?_ hready ?_
  · rw [hcalls, hwaits, List.length_cons]
    exact Nat.succ_add _ _
  · intro time hnow
    rw [startedBy_cons (s := s) hcalls, hwaits, if_neg hnow, Nat.add_zero]

theorem Paced.of_reserved {bucket : Rate.Bucket Rat Rat} {c : Collector} {due : Rat}
    (hpaced : Paced created qps burst s) (hduty : s.workers[w]? = some (.active c))
    (htook : s.bucket.acquire s.now = (some due, bucket)) :
    Paced created qps burst ({ s with bucket := bucket }.assign w (.waiting c due)) := by
  obtain ⟨hcovers, hdated, hdue⟩ := hpaced.covers.acquire hpaced.last htook
  have hmatures : due = s.now + -bucket.balance / s.bucket.qps := by
    rcases hdue with ⟨hnone, -⟩ | hdue
    · cases hnone
    · exact Option.some.inj hdue
  have hwaits : ∀ when : Rat → Bool,
      ({ s with bucket := bucket }.assign w (.waiting c due)).waits when =
        s.waits when + (when due).toNat := by
    intro when
    exact waits_assign hduty rfl when
  have hready := hcovers.taken_le_due
  rw [hdated.last, hdated.qps, ← hmatures, ← hdated.qps] at hready
  refine hpaced.of_taken ⟨rfl, rfl⟩ hdated hcovers ?_ hready ?_
  · rw [hwaits]
    rfl
  · intro time hlater
    rw [hwaits, decide_eq_false hlater]
    rfl

/-- A wait that ends becomes a call; it was counted from the time at which it matured. -/
theorem Paced.of_matured {c : Collector} {due : Rat} (hpaced : Paced created qps burst s)
    (hduty : s.workers[w]? = some (.waiting c due)) (hdue : due ≤ s.now) :
    Paced created qps burst (s.pass w c) := by
  have hcalls := calls_pass s w c
  have hwaits : ∀ when : Rat → Bool, (s.pass w c).waits when + (when due).toNat = s.waits when :=
    waits_resume hduty rfl
  have htotal : (s.pass w c).calls.length + ((s.pass w c).waits fun _ => true) =
      s.calls.length + s.waits fun _ => true := by
    have hone : ((s.pass w c).waits fun _ => true) + 1 = s.waits fun _ => true := hwaits _
    rw [hcalls, List.length_cons]
    omega
  have hbucket := bucket_resume (s.note (.called w (nextCall c) s.now)) w c .passed
  constructor
  case rate => rw [show (s.pass w c).bucket = s.bucket from hbucket.1, hpaced.rate]
  case capacity => rw [show (s.pass w c).bucket = s.bucket from hbucket.1, hpaced.capacity]
  case last =>
    rw [show (s.pass w c).bucket = s.bucket from hbucket.1,
      show (s.pass w c).now = s.now from hbucket.2]
    exact hpaced.last
  case covers =>
    rw [show (s.pass w c).bucket = s.bucket from hbucket.1, htotal]
    exact hpaced.covers
  case used =>
    intro time htime
    have hless : (s.pass w c).startedBy time + ((s.pass w c).waits fun d => d ≤ time) ≤
        s.startedBy time + s.waits fun d => d ≤ time := by
      have hone := hwaits fun d => d ≤ time
      rw [startedBy_cons hcalls]
      dsimp only at hone ⊢
      by_cases hnow : s.now ≤ time
      · rw [decide_eq_true (le_trans hdue hnow), Bool.toNat_true] at hone
        rw [if_pos hnow]
        omega
      · rw [if_neg hnow]
        omega
    refine le_trans ?_ (hpaced.used time htime)
    exact_mod_cast hless

theorem Paced.of_calledOff {bucket : Rate.Bucket Rat Rat} {c : Collector} {old : Duty Rat}
    (hpaced : Paced created qps burst s) (hduty : s.workers[w]? = some old)
    (hdated : s.bucket.Dated bucket s.now)
    (hcovers : bucket.Covers created (s.calls.length +
      ({ s with bucket := bucket }.resume w c .calledOff).waits fun _ => true)) :
    Paced created qps burst ({ s with bucket := bucket }.resume w c .calledOff) := by
  have hcalls : ({ s with bucket := bucket }.resume w c .calledOff).calls = s.calls :=
    calls_resume { s with bucket := bucket } w c .calledOff
  refine hpaced.of_dated (bucket_resume _ _ _ _) hdated (by rw [hcalls]; exact hcovers) ?_
  intro time htime
  left
  have hwaits : (({ s with bucket := bucket }.resume w c .calledOff).waits fun d => d ≤ time) +
      (old.due?.any fun d => d ≤ time).toNat = s.waits fun d => d ≤ time :=
    waits_resume (t := { s with bucket := bucket }) hduty rfl _
  rw [startedBy, hcalls]
  exact Nat.add_le_add_left (Nat.le.intro hwaits) _

/-!
## One move
-/

theorem Paced.of_turned (hrests : s.RestsAtGate) (hpaced : Paced created qps burst s)
    (hturned : Turned s w s') : Paced created qps burst s' := by
  -- Where the worker waits at the gate neither before the move nor after it, nobody's wait changes.
  have hquiet : s.due? w = none → s'.due? w = none → ∀ when, s'.waits when = s.waits when := by
    intro hbefore hafter when
    have hwaits := hturned.waits hrests when
    rw [hbefore, hafter] at hwaits
    exact hwaits
  cases hturned with
  | skipped hduty _ =>
      exact hpaced.of_same (le_refl _) rfl rfl
        (hquiet (due?_of_duty hduty) (due?_assign _ hduty rfl))
  | begun hduty _ hnext halike =>
      refine hpaced.of_same (le_of_eq halike.now.symm) halike.bucket halike.calls
        (hquiet (due?_of_duty hduty) ?_)
      rw [due?_assign _ hduty halike.workers]
      rcases hnext with rfl | rfl <;> rfl
  | passed hduty _ htook _ => exact hpaced.of_passed hduty htook
  | reserved hduty _ htook _ => exact hpaced.of_reserved hduty htook
  | @refused c bucket hduty _ hempty _ =>
      obtain ⟨hcovers, hdated⟩ := hpaced.covers.not_allow hpaced.last hempty
      have hwaits : (({ s with bucket := bucket }.resume w c .calledOff).waits fun _ => true) =
          s.waits fun _ => true := waits_resume (t := { s with bucket := bucket }) hduty rfl _
      refine hpaced.of_calledOff hduty hdated ?_
      rw [hwaits]
      exact hcovers
  | matured hduty hdue => exact hpaced.of_matured hduty hdue
  | unanswered hduty _ halike =>
      exact hpaced.of_same (le_of_eq halike.now.symm) halike.bucket halike.calls
        (hquiet (due?_of_duty hduty) (due?_assign _ hduty halike.workers))
  | answered hduty _ halike =>
      refine hpaced.of_same ?_ ?_ ((calls_resume _ _ _ _).trans halike.calls)
        (hquiet (due?_of_duty hduty) (due?_resume hduty halike.workers))
      · rw [(bucket_resume _ _ _ _).2, halike.now]
      · rw [(bucket_resume _ _ _ _).1, halike.bucket]
  | sent hduty halike =>
      refine hpaced.of_same ?_ ?_ ((calls_release _ _).trans halike.calls)
        (hquiet (due?_of_duty hduty) (due?_release hduty halike.workers))
      · rw [(bucket_release _ _).2, halike.now]
      · rw [(bucket_release _ _).1, halike.bucket]

theorem Paced.of_step {m : Move Rat} (hrests : s.RestsAtGate) (hpaced : Paced created qps burst s)
    (hstep : s.step setting m = some s') : Paced created qps burst s' := by
  rcases cases_at_gate hstep with ⟨-, time, htime, rfl⟩ | ⟨-, halike⟩ | ⟨v, -, hturned⟩ |
    ⟨-, v, c, due, hduty, -, rfl⟩
  · exact hpaced.of_same htime rfl rfl (fun _ => rfl)
  · refine hpaced.of_same (le_of_eq halike.now.symm) halike.bucket halike.calls ?_
    intro when
    rw [State.waits, halike.workers]
    rfl
  · exact hpaced.of_turned hrests hturned
  · have hone : (({ s with bucket := s.bucket.handBack s.now }.resume v c .calledOff).waits
        fun _ => true) + 1 = s.waits fun _ => true :=
      waits_resume (t := { s with bucket := s.bucket.handBack s.now }) hduty rfl _
    have hcovers := hpaced.covers
    rw [← hone, ← Nat.add_assoc] at hcovers
    obtain ⟨hback, hdated⟩ := hcovers.handBack hpaced.last
    exact hpaced.of_calledOff hduty hdated hback

theorem paced_of_reaches {first : State σ Rat Rat} (hrests : first.RestsAtGate)
    (hfirst : Paced created qps burst first) (hreaches : first.Reaches setting s) :
    Paced created qps burst s := by
  induction hreaches with
  | here => exact hfirst
  | move hbefore hstep ih => exact ih.of_step (restsAtGate_of_reaches hrests hbefore) hstep

/-!
## Calls made by a time
-/

/-- The calls that a course makes are those that passed the gate, up to any time. -/
structure Accounted (made : List (Call × Rat)) (s : State σ Rat Rat) : Prop where
  timely : ∀ call ∈ s.calls, call.2.2 ≤ s.now
  length : made.length + s.pending ≤ s.calls.length
  madeBy : ∀ time, made.countP (fun call => call.2 ≤ time) ≤ s.startedBy time

theorem Turned.now (hturned : Turned s w s') : s'.now = s.now := by
  cases hturned with
  | skipped _ _ => rfl
  | begun _ _ _ halike => exact halike.now
  | passed _ _ _ _ => exact (bucket_resume _ _ _ _).2
  | reserved _ _ _ _ => rfl
  | refused _ _ _ _ => exact (bucket_resume _ _ _ _).2
  | matured _ _ => exact (bucket_resume _ _ _ _).2
  | unanswered _ _ halike => exact halike.now
  | answered _ _ halike => exact (bucket_resume _ _ _ _).2.trans halike.now
  | sent _ halike => exact (bucket_release _ _).2.trans halike.now

theorem calls_of_step {m : Move Rat} (hrests : s.RestsAtGate)
    (hstep : s.step setting m = some s') :
    s.now ≤ s'.now ∧
      (s'.calls = s.calls ∨ ∃ call, s'.calls = call :: s.calls ∧ call.2.2 = s.now) := by
  rcases cases_at_gate hstep with ⟨-, time, htime, rfl⟩ | ⟨-, halike⟩ | ⟨v, -, hturned⟩ |
    ⟨-, v, c, due, -, -, rfl⟩
  · exact ⟨htime, Or.inl rfl⟩
  · exact ⟨le_of_eq halike.now.symm, Or.inl halike.calls⟩
  · refine ⟨le_of_eq hturned.now.symm, ?_⟩
    rcases hturned.calls hrests with hsame | ⟨c, -, hadded, -⟩
    · exact Or.inl hsame
    · exact Or.inr ⟨_, hadded, rfl⟩
  · have hclock := bucket_resume { s with bucket := s.bucket.handBack s.now } v c .calledOff
    exact ⟨le_of_eq hclock.2.symm, Or.inl (calls_resume _ _ _ _)⟩

theorem startedBy_mono (hcalls : s'.calls = s.calls ∨ ∃ call, s'.calls = call :: s.calls ∧
    call.2.2 = s.now) (time : Rat) : s.startedBy time ≤ s'.startedBy time := by
  rcases hcalls with hsame | ⟨call, hadded, -⟩
  · rw [startedBy, startedBy, hsame]
  · rw [startedBy_cons hadded]
    exact Nat.le_add_right _ _

theorem startedBy_of_timely {time : Rat} (htimely : ∀ call ∈ s.calls, call.2.2 ≤ time) :
    s.startedBy time = s.calls.length := by
  refine List.countP_eq_length.2 ?_
  intro call hmem
  exact decide_eq_true (htimely call hmem)

theorem Accounted.of_step {m : Move Rat} {made : List (Call × Rat)} (hrests : s.RestsAtGate)
    (haccounted : Accounted made s) (hstep : s.step setting m = some s') :
    Accounted ((s.callBy m).toList.map (fun call => (call, s.now)) ++ made) s' := by
  obtain ⟨hclock, hcalls⟩ := calls_of_step hrests hstep
  have hbegun : ∀ call ∈ s'.calls, call.2.2 ≤ s.now := by
    intro call hmem
    rcases hcalls with hsame | ⟨call', hadded, htime⟩
    · rw [hsame] at hmem
      exact haccounted.timely call hmem
    · rw [hadded, List.mem_cons] at hmem
      rcases hmem with rfl | hearlier
      · exact le_of_eq htime
      · exact haccounted.timely call hearlier
  have hlength := made_le_of_step hrests haccounted.length hstep
  constructor
  case timely =>
    intro call hmem
    exact le_trans (hbegun call hmem) hclock
  case length =>
    rw [List.length_append, List.length_map]
    exact hlength
  case madeBy =>
    intro time
    by_cases hnow : s.now ≤ time
    · rw [startedBy_of_timely (fun call hmem => le_trans (hbegun call hmem) hnow)]
      refine le_trans List.countP_le_length ?_
      rw [List.length_append, List.length_map]
      exact le_trans (Nat.le_add_right _ _) hlength
    · -- The move's call is made after the time in question.
      have hnone : ((s.callBy m).toList.map fun call => (call, s.now)).countP
          (fun call => call.2 ≤ time) = 0 := by
        rw [List.countP_map]
        refine List.countP_eq_zero.2 ?_
        intro call _
        simp [hnow]
      rw [List.countP_append, hnone, Nat.zero_add]
      exact le_trans (haccounted.madeBy time) (startedBy_mono hcalls time)

theorem accounted_of_calling {first : State σ Rat Rat} {made : List (Call × Rat)}
    (hrests : first.RestsAtGate) (hfirst : Accounted [] first)
    (hcalling : Calling setting first made s) : Accounted made s := by
  induction hcalling with
  | here => exact hfirst
  | move hbefore hstep ih =>
      exact ih.of_step (restsAtGate_of_reaches hrests (reaches_of_calling hbefore)) hstep

end

/-!
## The whole run
-/

def exactRun (store : FleetStore) (stages : List Protocol.Stage) (folder : Path) (qps : Rat)
    (burst : Nat) (now : Rat) (calledOff : Bool) (remote : σ) : State σ Rat Rat :=
  .start store stages folder (.full qps (max burst 1 : Nat) now) now calledOff remote

section

variable {store : FleetStore} {stages : List Protocol.Stage} {folder : Path} {qps now : Rat}
  {burst : Nat} {calledOff : Bool} {remote : σ}

theorem waits_start (bucket : Rate.Bucket Rat Rat) (when : Rat → Bool) :
    (start store stages folder bucket now calledOff remote).waits when = 0 := by
  rw [waits, start, List.countP_map]
  exact List.countP_eq_zero.2 fun _ _ => Bool.false_ne_true

theorem pending_start (bucket : Rate.Bucket Rat Rat) :
    (start store stages folder bucket now calledOff remote).pending = 0 := by
  rw [pending, start, List.countP_map]
  exact List.countP_eq_zero.2 fun _ _ => Bool.false_ne_true

theorem paced_exactRun (hqps : 0 < qps) :
    Paced now qps (max burst 1 : Nat)
      (exactRun store stages folder qps burst now calledOff remote) where
  rate := rfl
  capacity := rfl
  last := le_refl now
  covers := by
    rw [exactRun, waits_start]
    exact Rate.Bucket.covers_full hqps now
  used := by
    intro time htime
    have hnone :
        (exactRun store stages folder qps burst now calledOff remote).startedBy time = 0 := rfl
    rw [hnone, exactRun, waits_start]
    have hgained : 0 ≤ qps * (time - now) := mul_nonneg (le_of_lt hqps) (sub_nonneg.2 htime)
    have hroom : (0 : Rat) ≤ (max burst 1 : Nat) := Nat.cast_nonneg _
    exact add_nonneg hroom hgained

theorem accounted_exactRun :
    Accounted [] (exactRun store stages folder qps burst now calledOff remote) where
  timely := nofun
  length := by
    rw [exactRun, pending_start]
    exact Nat.le_refl 0
  madeBy _ := Nat.zero_le _

/--
Up to any time a run makes no more calls than passed the gate, and no more passed it
than fit into the bucket and have come in since it was set up.
-/
theorem calls_le_rate {made : List (Call × Rat)} {last : State σ Rat Rat} {elapsed : Rat}
    (hqps : 0 < qps) (helapsed : 0 ≤ elapsed)
    (hcalling : Calling setting (exactRun store stages folder qps burst now calledOff remote) made
      last) :
    (made.countP fun call => call.2 ≤ now + elapsed) ≤ last.startedBy (now + elapsed) ∧
      (last.startedBy (now + elapsed) : Rat) ≤ (max burst 1 : Nat) + qps * elapsed := by
  have hrests : (exactRun store stages folder qps burst now calledOff remote).RestsAtGate :=
    restsAtGate_start _ _ _ _ _ _ _
  constructor
  · exact (accounted_of_calling hrests accounted_exactRun hcalling).madeBy _
  · have hpaced := paced_of_reaches hrests (paced_exactRun hqps) (reaches_of_calling hcalling)
    have hused := hpaced.used (now + elapsed) (le_add_of_nonneg_right helapsed)
    rw [add_sub_cancel_left] at hused
    refine le_trans ?_ hused
    exact_mod_cast Nat.le_add_right _ _

end

/-!
## One token in two seconds

The connection takes the token that the bucket starts with; the only command waits
for two seconds.  The bound is met exactly.
-/

def lone : FleetStore :=
  let c := FleetConfig.new "demo" "/logs" "/fleetlog.yaml"
  ⟨{ c with status := c.status.addInstance "g" ⟨"a", "10.0.0.1", ""⟩ }, .empty, []⟩

def ready : Setting Account where
  connector := Script.canned.connector
  verbose := false
  suffix _ _ := ""
  flaw _ _ := none

def loneRun : State Account Rat Rat :=
  exactRun lone [.fixed [⟨"uptime", "up.log", none⟩]] "/logs/run" (1 / 2) 0 0 false .zero

def twoCalls : List (Move Rat) :=
  [.work 0, .work 0, .work 0, .work 0, .tick 2, .work 0, .work 0]

theorem loneRun_facts :
    ((callsOf ready loneRun twoCalls).map fun (made, _) => made) =
      some [(.run "uptime", 2), (.connect, 0)] := by
  decide +kernel

theorem calls_le_rate_lone :
    ∃ made last, Calling ready loneRun made last ∧
      (made.countP fun call => call.2 ≤ 0 + 2) = 2 ∧
      (last.startedBy (0 + 2) : Rat) ≤ (max 0 1 : Nat) + 1 / 2 * 2 := by
  obtain ⟨⟨made, last⟩, hcalls, hmade⟩ := Option.map_eq_some_iff.1 loneRun_facts
  have hcalling := calling_of_callsOf hcalls
  refine ⟨made, last, hcalling, ?_, (calls_le_rate (by decide +kernel) (by decide +kernel) hcalling).2⟩
  rw [show made = _ from hmade]
  decide +kernel

end State
end Run
end LogHarvest
