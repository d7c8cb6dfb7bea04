import LogHarvest.Proofs.Run.Moves

/-!
# What a move leaves each worker with

A worker carries a collector, or holds a record, or is through.  These lemmas say
what a move of one worker makes of that for every worker.  Another worker's share
never changes, although a worker that ends may hand its permit on.
-/

namespace LogHarvest
namespace Run
namespace State

variable {σ α τ : Type}

theorem lt_length_of_collector? {s : State σ α τ} {w : Nat} {c : Collector}
    (hcollector : s.collector? w = some c) : w < s.workers.length := by
  obtain ⟨duty, hduty, -⟩ := Option.bind_eq_some_iff.1 hcollector
  exact (List.getElem?_eq_some_iff.1 hduty).1

theorem duty_of_held? {s : State σ α τ} {w : Nat} {r : Record} (hheld : s.held? w = some r) :
    s.workers[w]? = some (.sending r) := by
  obtain ⟨duty, hduty, hrecord⟩ := Option.bind_eq_some_iff.1 hheld
  cases duty <;> cases hrecord
  exact hduty

theorem lt_length_of_held? {s : State σ α τ} {w : Nat} {r : Record}
    (hheld : s.held? w = some r) : w < s.workers.length :=
  (List.getElem?_eq_some_iff.1 (duty_of_held? hheld)).1

theorem held?_of_collector? {s : State σ α τ} {w : Nat} {c : Collector}
    (hcollector : s.collector? w = some c) : s.held? w = none := by
  obtain ⟨duty, hduty, hcarried⟩ := Option.bind_eq_some_iff.1 hcollector
  rw [held?, hduty]
  cases duty <;> first | rfl | cases hcarried

theorem collector?_congr {s s' : State σ α τ} (hworkers : s'.workers = s.workers) (i : Nat) :
    s'.collector? i = s.collector? i := by
  rw [collector?, collector?, hworkers]

theorem held?_congr {s s' : State σ α τ} (hworkers : s'.workers = s.workers) (i : Nat) :
    s'.held? i = s.held? i := by
  rw [held?, held?, hworkers]

theorem unstarted_of_start {store : FleetStore} {stages : List Protocol.Stage} {folder : Path}
    {bucket : Rate.Bucket α τ} {now : τ} {calledOff : Bool} {remote : σ} {w : Nat} {duty : Duty τ}
    (hduty : (start store stages folder bucket now calledOff remote).workers[w]? = some duty) :
    ∃ group i, duty = .unstarted (.new group i stages folder) := by
  obtain ⟨c, hmem, rfl⟩ := List.mem_map.1 (List.mem_of_getElem? hduty)
  simp only [collectors, List.mem_flatMap, List.mem_map] at hmem
  obtain ⟨_, _, _, _, rfl⟩ := hmem
  exact ⟨_, _, rfl⟩

/-!
## New duties
-/

theorem duty_assign {s : State σ α τ} {w : Nat} (hw : w < s.workers.length) (duty : Duty τ)
    (i : Nat) : (s.assign w duty).workers[i]? = if i = w then some duty else s.workers[i]? := by
  simp only [assign, List.getElem?_set]
  by_cases hi : i = w
  · subst hi
    simp [hw]
  · simp [hi, Ne.symm hi]

theorem collector?_assign {s : State σ α τ} {w : Nat} (hw : w < s.workers.length)
    (duty : Duty τ) (i : Nat) :
    (s.assign w duty).collector? i = if i = w then duty.collector? else s.collector? i := by
  rw [collector?, duty_assign hw]
  split <;> rfl

theorem held?_assign {s : State σ α τ} {w : Nat} (hw : w < s.workers.length)
    (duty : Duty τ) (i : Nat) :
    (s.assign w duty).held? i = if i = w then duty.record? else s.held? i := by
  rw [held?, duty_assign hw]
  split <;> rfl

/-!
## Answers
-/

theorem resume_of_unfinished {s : State σ α τ} {w : Nat} {c : Collector} {answer : Response}
    (hunfinished : (c.resume answer).record? = none) :
    s.resume w c answer = s.assign w (.active (c.resume answer)) := by
  simp only [resume, hunfinished]

theorem resume_of_finished {s : State σ α τ} {w : Nat} {c : Collector} {answer : Response}
    {r : Record} (hfinished : (c.resume answer).record? = some r) :
    s.resume w c answer =
      (s.assign w (.sending r)).note (.returned w r (c.resume answer).sink) := by
  simp only [resume, hfinished]

theorem calledOff_resume (s : State σ α τ) (w : Nat) (c : Collector) (answer : Response) :
    (s.resume w c answer).calledOff = s.calledOff := by
  rcases cases_of_resume s w c answer with hresume | ⟨r, hresume⟩ <;> rw [hresume]
  all_goals rfl

/-!
## Ends
-/

theorem duty_release (s : State σ α τ) (w i : Nat) :
    (s.release w).workers[i]? = (s.assign w .ended).workers[i]? ∨
      ∃ c, (s.assign w .ended).workers[i]? = some (.queued c) ∧
        (s.release w).workers[i]? = some (.active c) := by
  unfold release
  dsimp only
  split
  · exact Or.inl rfl
  · exact Or.inl rfl
  · rename_i next queue _ _
    split
    · rename_i c hnext
      by_cases hi : i = next
      · subst hi
        refine Or.inr ⟨c, hnext, ?_⟩
        exact List.getElem?_set_self (List.getElem?_eq_some_iff.1 hnext).1
      · left
        simp only [assign, List.getElem?_set]
        simp [Ne.symm hi]
    · exact Or.inl rfl

theorem share_release {β : Type} {share : Duty τ → Option β} (hended : share .ended = none)
    (hpermit : ∀ c, share (.active c) = share (.queued c)) (s : State σ α τ) (w i : Nat) :
    (s.release w).workers[i]?.bind share =
      if i = w then none else s.workers[i]?.bind share := by
  have hassign : (s.assign w .ended).workers[i]?.bind share =
      if i = w then none else s.workers[i]?.bind share := by
    simp only [assign, List.getElem?_set]
    by_cases hi : i = w
    · subst hi
      by_cases hw : i < s.workers.length
      · simp [hw, hended]
      · simp [hw]
    · simp [hi, Ne.symm hi]
  rw [← hassign]
  rcases duty_release s w i with hsame | ⟨c, hqueued, hactive⟩
  · rw [hsame]
  · rw [hqueued, hactive]
    exact hpermit c

theorem collector?_release (s : State σ α τ) (w i : Nat) :
    (s.release w).collector? i = if i = w then none else s.collector? i :=
  share_release rfl (fun _ => rfl) s w i

theorem held?_release (s : State σ α τ) (w i : Nat) :
    (s.release w).held? i = if i = w then none else s.held? i :=
  share_release rfl (fun _ => rfl) s w i

theorem filed_release (s : State σ α τ) (w : Nat) : (s.release w).filed = s.filed := by
  obtain ⟨_, _, _, hrelease, -⟩ := exists_release s w
  rw [hrelease]
  rfl

theorem channel_release (s : State σ α τ) (w : Nat) : (s.release w).channel = s.channel := by
  obtain ⟨_, _, _, hrelease, -⟩ := exists_release s w
  rw [hrelease]

theorem receiver_release (s : State σ α τ) (w : Nat) : (s.release w).receiver = s.receiver := by
  obtain ⟨_, _, _, hrelease, -⟩ := exists_release s w
  rw [hrelease]

theorem around_release (s : State σ α τ) (w : Nat) : (s.release w).around = s.around := by
  obtain ⟨_, _, _, hrelease, -⟩ := exists_release s w
  rw [hrelease]
  rfl

theorem calledOff_release (s : State σ α τ) (w : Nat) :
    (s.release w).calledOff = s.calledOff := by
  obtain ⟨_, _, _, hrelease, -⟩ := exists_release s w
  rw [hrelease]

theorem length_workers_release (s : State σ α τ) (w : Nat) :
    (s.release w).workers.length = s.workers.length := by
  obtain ⟨_, _, _, hrelease, hlength⟩ := exists_release s w
  rw [hrelease]
  exact hlength

end State
end Run
end LogHarvest
