import LogHarvest.Proofs.Run.Gate

/-!
# The calls that a course makes

`State.calls` notes who passed the gate for what.  The calls themselves are moves of
their own; a course is taken together with them here (`Calling`).  A worker that
passed the gate makes one call and no other before it passes again, so up to any
time no more calls are made than passed the gate (`countP_made_le`).
-/

namespace LogHarvest
namespace Run

variable {σ α τ : Type}

/-- The worker passed the gate for a call that it has not made yet. -/
def Duty.isCalling : Duty τ → Bool
  | .active c => (callFor c.request).isSome
  | _ => false

/-!
## Counting
-/

theorem countP_of_others {β : Type} {p : β → Bool} {l l' : List β} {w : Nat}
    (hlength : l'.length = l.length) (hothers : ∀ i, i ≠ w → l'[i]?.any p = l[i]?.any p) :
    l'.countP p + (l[w]?.any p).toNat = l.countP p + (l'[w]?.any p).toNat := by
  induction l generalizing l' w with
  | nil =>
      rw [List.length_nil, List.length_eq_zero_iff] at hlength
      rw [hlength]
  | cons x xs ih =>
      obtain ⟨y, ys, rfl⟩ := List.exists_cons_of_length_eq_add_one hlength
      rw [List.length_cons, List.length_cons, Nat.add_right_cancel_iff] at hlength
      rw [List.countP_cons, List.countP_cons]
      cases w with
      | zero =>
          have htails := ih (w := xs.length) hlength
            (fun i _ => hothers (i + 1) (Nat.succ_ne_zero i))
          have hpast : ys[xs.length]? = none := List.getElem?_eq_none (Nat.le_of_eq hlength)
          rw [hpast, List.getElem?_eq_none (Nat.le_refl _)] at htails
          cases hx : p x <;> cases hy : p y <;> simp_all
      | succ w =>
          have hheads := hothers 0 (Nat.succ_ne_zero w).symm
          have htails := ih (w := w) hlength
            (fun i hi => hothers (i + 1) (fun h => hi (Nat.succ.inj h)))
          simp only [List.getElem?_cons_zero, Option.any_some] at hheads
          simp only [List.getElem?_cons_succ, hheads]
          omega

namespace State

variable {setting : Setting σ}

/-- A course, with the calls that its moves make and their times, the latest first. -/
inductive Calling [Rate.Meter α τ] [LE τ] [DecidableLE τ] (setting : Setting σ)
    (first : State σ α τ) : List (Call × τ) → State σ α τ → Prop
  | here : Calling setting first [] first
  | move {made : List (Call × τ)} {a b : State σ α τ} {m : Move τ} :
      Calling setting first made a → a.step setting m = some b →
      Calling setting first ((a.callBy m).toList.map (fun call => (call, a.now)) ++ made) b

theorem reaches_of_calling [Rate.Meter α τ] [LE τ] [DecidableLE τ] {first s : State σ α τ}
    {made : List (Call × τ)} (hcalling : Calling setting first made s) :
    first.Reaches setting s := by
  induction hcalling with
  | here => exact .here
  | move _ hstep ih => exact ih.move hstep

def callsOf [Rate.Meter α τ] [LE τ] [DecidableLE τ] (setting : Setting σ) (s : State σ α τ)
    (moves : List (Move τ)) : Option (List (Call × τ) × State σ α τ) :=
  moves.foldlM
    (fun course m => (course.2.step setting m).map fun b =>
      ((course.2.callBy m).toList.map (fun call => (call, course.2.now)) ++ course.1, b))
    ([], s)

theorem calling_of_callsOf [Rate.Meter α τ] [LE τ] [DecidableLE τ] {first s : State σ α τ}
    {made : List (Call × τ)} {moves : List (Move τ)}
    (hcalls : callsOf setting first moves = some (made, s)) : Calling setting first made s := by
  refine foldlM_induction (motive := fun course => Calling setting first course.1 course.2)
    ?_ .here hcalls
  intro course next m hcourse hnext
  obtain ⟨b, hstep, rfl⟩ := Option.map_eq_some_iff.1 hnext
  exact hcourse.move hstep

/-!
## What a worker's move makes of a count
-/

theorem length_workers_resume (s : State σ α τ) (w : Nat) (c : Collector) (answer : Response) :
    (s.resume w c answer).workers.length = s.workers.length := by
  rcases cases_of_resume s w c answer with hresume | ⟨r, hresume⟩ <;> rw [hresume]
  all_goals exact List.length_set

theorem countP_assign {p : Duty τ → Bool} {s t : State σ α τ} {w : Nat} {old duty : Duty τ}
    (hold : s.workers[w]? = some old) (hworkers : t.workers = s.workers) :
    (t.assign w duty).workers.countP p + (p old).toNat = s.workers.countP p + (p duty).toNat := by
  have hw := lt_length_of_duty hold
  rw [← hworkers] at hw
  have hlength : (t.assign w duty).workers.length = s.workers.length := by
    rw [assign, List.length_set, hworkers]
  have hcount := countP_of_others (p := p) (w := w) hlength fun i hi => by
    rw [duty_assign_of_ne hold hworkers hi]
  rw [hold, duty_assign hw, if_pos rfl] at hcount
  exact hcount

theorem countP_resume {p : Duty τ → Bool} {s t : State σ α τ} {w : Nat} {old : Duty τ}
    {c : Collector} {answer : Response} (hold : s.workers[w]? = some old)
    (hworkers : t.workers = s.workers)
    (hnot : ((t.resume w c answer).workers[w]?.any p) = false) :
    (t.resume w c answer).workers.countP p + (p old).toNat = s.workers.countP p := by
  have hlength : (t.resume w c answer).workers.length = s.workers.length := by
    rw [length_workers_resume, hworkers]
  have hcount := countP_of_others (p := p) (w := w) hlength fun i hi => by
    rw [duty_resume_of_ne hold hworkers hi]
  rw [hold, hnot] at hcount
  exact hcount

section

variable [Rate.Meter α τ] [LE τ] {s s' : State σ α τ} {w : Nat}

theorem Turned.length_workers (hturned : Turned s w s') :
    s'.workers.length = s.workers.length := by
  cases hturned with
  | skipped _ _ => exact List.length_set
  | begun _ _ _ halike => rw [assign, List.length_set, halike.workers]
  | passed _ _ _ _ => exact length_workers_resume _ _ _ _
  | reserved _ _ _ _ => exact List.length_set
  | refused _ _ _ _ => exact length_workers_resume _ _ _ _
  | matured _ _ => exact length_workers_resume _ _ _ _
  | unanswered _ _ halike => rw [assign, List.length_set, halike.workers]
  | answered _ _ halike => rw [length_workers_resume, halike.workers]
  | sent _ halike => rw [length_workers_release, halike.workers]

theorem Turned.countP {p : Duty τ → Bool}
    (hpermit : ∀ c, c.request = .gate → p (.active c) = p (.queued c)) (hrests : s.RestsAtGate)
    (hturned : Turned s w s') :
    s'.workers.countP p + (s.workers[w]?.any p).toNat =
      s.workers.countP p + (s'.workers[w]?.any p).toNat := by
  refine countP_of_others hturned.length_workers ?_
  intro i hi
  rcases hturned.others hi with hsame | ⟨c, hqueued, hactive⟩
  · rw [hsame]
  · rw [hqueued, hactive]
    exact hpermit c (hrests.gate hqueued rfl)

end

/-!
## Every call passed the gate

A worker that passed the gate makes one call, and makes none before it passes again.
-/

def pending (s : State σ α τ) : Nat :=
  s.workers.countP Duty.isCalling

theorem isCalling_of_gate {c : Collector} (hgate : c.request = .gate) :
    (Duty.active c : Duty τ).isCalling = false := by
  rw [Duty.isCalling, hgate]
  rfl

theorem not_calling_resume {s t : State σ α τ} {w : Nat} {old : Duty τ} {c : Collector}
    {answer : Response} (hold : s.workers[w]? = some old) (hworkers : t.workers = s.workers)
    (hnone : callFor (c.resume answer).request = none) :
    (t.resume w c answer).workers[w]?.any Duty.isCalling = false := by
  have hw := lt_length_of_duty hold
  rw [← hworkers] at hw
  rw [duty_resume hw, if_pos rfl, Option.any_some]
  cases (c.resume answer).record? with
  | some r => rfl
  | none =>
      rw [Duty.isCalling, hnone]
      rfl

theorem not_calling_assign {s t : State σ α τ} {w : Nat} {old duty : Duty τ}
    (hold : s.workers[w]? = some old) (hworkers : t.workers = s.workers)
    (hduty : duty.isCalling = false) :
    (t.assign w duty).workers[w]?.any Duty.isCalling = false := by
  have hw := lt_length_of_duty hold
  rw [← hworkers] at hw
  rw [duty_assign hw, if_pos rfl]
  exact hduty

theorem length_callBy_work (s : State σ α τ) (w : Nat) :
    (s.callBy (.work w)).toList.length = (s.workers[w]?.any Duty.isCalling).toNat := by
  rw [callBy]
  split
  · rename_i c hduty
    rw [hduty, Option.any_some, Duty.isCalling]
    cases callFor c.request <;> rfl
  · rename_i hnot
    cases hduty : s.workers[w]? with
    | none => rfl
    | some duty =>
        cases duty with
        | active c => exact absurd hduty (hnot c)
        | _ => rfl

section

variable [Rate.Meter α τ] [LE τ] {s s' : State σ α τ} {w : Nat}

theorem Turned.not_calling (hrests : s.RestsAtGate) (hturned : Turned s w s') :
    s'.workers[w]?.any Duty.isCalling = false ∨ s'.calls.length = s.calls.length + 1 := by
  cases hturned with
  | skipped hduty _ => exact Or.inl (not_calling_assign hduty rfl rfl)
  | begun hduty _ hnext halike =>
      left
      refine not_calling_assign hduty halike.workers ?_
      rcases hnext with rfl | rfl
      · rfl
      · exact isCalling_of_gate (hrests.gate hduty rfl)
  | passed _ _ _ _ => exact Or.inr (by rw [calls_pass, List.length_cons]; rfl)
  | reserved hduty _ _ _ => exact Or.inl (not_calling_assign hduty rfl rfl)
  | refused hduty hgate _ _ =>
      exact Or.inl (not_calling_resume hduty rfl (callFor_resume_calledOff hgate))
  | matured _ _ => exact Or.inr (by rw [calls_pass, List.length_cons])
  | unanswered hduty _ halike => exact Or.inl (not_calling_assign hduty halike.workers rfl)
  | answered hduty hfits halike =>
      exact Or.inl (not_calling_resume hduty halike.workers (callFor_resume_of_fits hfits))
  | @sent r t hduty halike =>
      left
      have hended : (t.assign w .ended).workers[w]? = some .ended := by
        have hw := lt_length_of_duty hduty
        rw [← halike.workers] at hw
        rw [duty_assign hw, if_pos rfl]
      rcases duty_release t w w with hsame | ⟨c, hqueued, -⟩
      · rw [hsame, hended]
        rfl
      · rw [hended] at hqueued
        cases hqueued

theorem Turned.more_calls (hrests : s.RestsAtGate) (hturned : Turned s w s') :
    s.calls.length ≤ s'.calls.length := by
  rcases hturned.calls hrests with hsame | ⟨c, -, hadded, -⟩
  · exact Nat.le_of_eq (by rw [hsame])
  · rw [hadded, List.length_cons]
    exact Nat.le_succ _

theorem Turned.made_le (hrests : s.RestsAtGate) (hturned : Turned s w s') {made : Nat}
    (hmade : made + s.pending ≤ s.calls.length) :
    (s.callBy (.work w)).toList.length + made + s'.pending ≤ s'.calls.length := by
  have hcount : s'.pending + (s.workers[w]?.any Duty.isCalling).toNat =
      s.pending + (s'.workers[w]?.any Duty.isCalling).toNat :=
    hturned.countP (fun c hgate => isCalling_of_gate hgate) hrests
  have hmore := hturned.more_calls hrests
  rw [length_callBy_work]
  rcases hturned.not_calling hrests with hnone | hone
  · rw [hnone, Bool.toNat_false] at hcount
    omega
  · have hmost : (s'.workers[w]?.any Duty.isCalling).toNat ≤ 1 := Bool.toNat_le _
    omega

end

section

variable [Rate.Meter α τ] [LE τ] [DecidableLE τ] {s s' : State σ α τ}

theorem made_le_of_step {m : Move τ} {made : Nat} (hrests : s.RestsAtGate)
    (hmade : made + s.pending ≤ s.calls.length) (hstep : s.step setting m = some s') :
    (s.callBy m).toList.length + made + s'.pending ≤ s'.calls.length := by
  rcases cases_at_gate hstep with ⟨hnone, time, -, rfl⟩ | ⟨hnone, halike⟩ | ⟨w, rfl, hturned⟩ |
    ⟨hnone, w, c, due, hduty, -, rfl⟩
  · rw [hnone, Option.toList_none, List.length_nil, Nat.zero_add]
    exact hmade
  · rw [hnone, Option.toList_none, List.length_nil, Nat.zero_add, pending, halike.workers,
      halike.calls]
    exact hmade
  · exact hturned.made_le hrests hmade
  · have hsame : ({ s with bucket := s.bucket.handBack s.now }.resume w c .calledOff).pending =
        s.pending := by
      have hcollector := callFor_resume_calledOff (hrests.gate hduty rfl)
      exact countP_resume (t := { s with bucket := s.bucket.handBack s.now }) hduty rfl
        (not_calling_resume hduty rfl hcollector)
    rw [hnone, Option.toList_none, List.length_nil, Nat.zero_add, calls_resume, hsame]
    exact hmade

end

end State
end Run
end LogHarvest
