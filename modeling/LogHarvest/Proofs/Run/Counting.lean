import LogHarvest.Proofs.Run.Carried
import LogHarvest.Proofs.Run.Delivery

/-!
# How a run that nobody calls off ends

In such a run every worker that is through has handed a record over, and the
receiver counts the records down.  So when it finishes, it has merged the record of
every worker.  The only other way to return is a record that the status refuses.
-/

namespace LogHarvest
namespace Run
namespace State

variable {σ α τ : Type}

/-!
## Workers that are through
-/

theorem ended_of_assign {s : State σ α τ} {w i : Nat} {duty : Duty τ}
    (hended : (s.assign w duty).workers[i]? = some .ended) (hduty : duty ≠ .ended) :
    s.workers[i]? = some .ended := by
  rw [assign, List.getElem?_set] at hended
  split at hended
  · split at hended
    · exact absurd (Option.some.inj hended) hduty
    · cases hended
  · exact hended

theorem ended_of_resume {s : State σ α τ} {w i : Nat} {c : Collector} {answer : Response}
    (hended : (s.resume w c answer).workers[i]? = some .ended) : s.workers[i]? = some .ended := by
  cases hrecord : (c.resume answer).record? with
  | none =>
      rw [resume_of_unfinished hrecord] at hended
      exact ended_of_assign hended nofun
  | some r =>
      rw [resume_of_finished hrecord] at hended
      exact ended_of_assign (s := s) (w := w) hended nofun

theorem ended_of_release {s : State σ α τ} {w i : Nat}
    (hended : (s.release w).workers[i]? = some .ended) :
    s.workers[i]? = some .ended ∨ i = w := by
  rcases duty_release s w i with hsame | ⟨c, -, hactive⟩
  · rw [hsame, assign, List.getElem?_set] at hended
    split at hended
    · rename_i hi
      exact Or.inr hi.symm
    · exact Or.inl hended
  · rw [hactive] at hended
    cases hended

theorem Worked.ended {setting : Setting σ} {s s' : State σ α τ} {w i : Nat}
    (hworked : Worked setting s w s') (hcalm : s.calledOff = false)
    (hended : s'.workers[i]? = some .ended) :
    s.workers[i]? = some .ended ∨ ∃ r, s.held? i = some r := by
  cases hworked with
  | skipped _ hcalledOff =>
      rw [hcalm] at hcalledOff
      cases hcalledOff
  | kept _ hduty hbeside _ =>
      rw [← hbeside.workers]
      refine Or.inl (ended_of_assign hended ?_)
      rintro rfl
      cases hduty
  | unanswered _ _ hbeside =>
      rw [← hbeside.workers]
      exact Or.inl (ended_of_assign hended nofun)
  | told _ _ _ hbeside =>
      rw [← hbeside.workers]
      exact Or.inl (ended_of_resume hended)
  | sent hheld _ _ =>
      rcases ended_of_release hended with hbefore | rfl
      · exact Or.inl hbefore
      · exact Or.inr ⟨_, hheld⟩
  | dropped hheld _ =>
      rcases ended_of_release hended with hbefore | rfl
      · exact Or.inl hbefore
      · exact Or.inr ⟨_, hheld⟩

theorem Worked.returned {setting : Setting σ} {s s' : State σ α τ} {w : Nat}
    (hworked : Worked setting s w s') {e : Nat × Record} (hmem : e ∈ s.returned) :
    e ∈ s'.returned := by
  cases hworked with
  | skipped => exact hmem
  | kept _ _ hbeside _ => exact (returned_congr hbeside.filed).symm ▸ hmem
  | unanswered _ _ hbeside => exact (returned_congr hbeside.filed).symm ▸ hmem
  | @told c answer t _ _ _ hbeside =>
      have hbefore : e ∈ t.returned := by
        rw [returned_congr hbeside.filed]
        exact hmem
      cases hrecord : (c.resume answer).record? with
      | none =>
          rw [resume_of_unfinished hrecord]
          exact hbefore
      | some r =>
          rw [resume_of_finished hrecord]
          exact List.mem_cons_of_mem _ hbefore
  | sent =>
      rw [returned_congr (filed_release _ w)]
      exact hmem
  | dropped =>
      rw [returned_congr (filed_release _ w)]
      exact hmem

theorem Worked.length_workers {setting : Setting σ} {s s' : State σ α τ} {w : Nat}
    (hworked : Worked setting s w s') : s'.workers.length = s.workers.length := by
  cases hworked with
  | skipped => exact List.length_set
  | kept _ _ hbeside _ => rw [assign, List.length_set, hbeside.workers]
  | unanswered _ _ hbeside => rw [assign, List.length_set, hbeside.workers]
  | @told c answer t _ _ _ hbeside =>
      cases hrecord : (c.resume answer).record? with
      | none => rw [resume_of_unfinished hrecord, assign, List.length_set, hbeside.workers]
      | some r =>
          rw [resume_of_finished hrecord, note, assign, List.length_set, hbeside.workers]
  | sent => exact length_workers_release _ w
  | dropped => exact length_workers_release _ w

/-!
## The count
-/

/-- Where a run over so many members stands that nobody has called off. -/
structure Counting (n : Nat) (s : State σ α τ) : Prop where
  length : s.workers.length = n
  ended : ∀ w, s.workers[w]? = some .ended → ∃ r, (w, r) ∈ s.returned
  receiving : ∀ left, s.receiver = .receiving left → left + s.merged.length = n
  draining : s.receiver ≠ .draining
  finishing : ∀ calledOff, s.receiver = .finishing calledOff →
    calledOff = false ∧ s.merged.length = n

theorem counting_start (store : FleetStore) (stages : List Protocol.Stage) (folder : Path)
    (bucket : Rate.Bucket α τ) (now : τ) (calledOff : Bool) (remote : σ) :
    Counting store.config.status.roster.length
      (start store stages folder bucket now calledOff remote) where
  length := length_workers_start _ _ _ _ _ _ _
  ended := by
    intro w hended
    obtain ⟨c, -, hduty⟩ := List.mem_map.1 (List.mem_of_getElem? hended)
    cases hduty
  receiving := by
    intro left hleft
    cases hleft
    exact length_workers_start store stages folder bucket now calledOff remote
  draining := nofun
  finishing := nofun

theorem le_length_returned {n : Nat} {s : State σ α τ} (hcounting : Counting n s)
    (hended : ∀ duty ∈ s.workers, duty = .ended) : n ≤ s.returned.length := by
  have hsubset : List.range n ⊆ s.returned.map Prod.fst := by
    intro w hw
    rw [List.mem_range, ← hcounting.length] at hw
    have hduty : s.workers[w]? = some .ended := by
      rw [List.getElem?_eq_getElem hw, hended _ (List.getElem_mem hw)]
    obtain ⟨r, hr⟩ := hcounting.ended w hduty
    exact List.mem_map.2 ⟨(w, r), hr, rfl⟩
  have hlength := List.nodup_range.length_le_of_subset hsubset
  rwa [List.length_range, List.length_map] at hlength

theorem delivered_of_ended {s : State σ α τ} (hended : ∀ duty ∈ s.workers, duty = .ended) :
    s.delivered = s.returned.map Prod.snd := by
  unfold delivered
  rw [List.filter_eq_self.2]
  rintro ⟨w, r⟩ -
  have hnone : s.held? w = none := by
    unfold held?
    cases hduty : s.workers[w]? with
    | none => rfl
    | some duty =>
        rw [hended duty (List.mem_of_getElem? hduty)]
        rfl
  rw [hnone]
  rfl

theorem Counting.of_sameBooks {n : Nat} {s s' : State σ α τ} (hcounting : Counting n s)
    (hbooks : s.SameBooks s') (hlength : s'.workers.length = s.workers.length)
    (hended : ∀ w, s'.workers[w]? = some .ended → ∃ r, (w, r) ∈ s'.returned) : Counting n s' where
  length := hlength.trans hcounting.length
  ended := hended
  receiving := by
    rw [hbooks.receiver, hbooks.merged]
    exact hcounting.receiving
  draining := by
    rw [hbooks.receiver]
    exact hcounting.draining
  finishing := by
    rw [hbooks.receiver, hbooks.merged]
    exact hcounting.finishing

theorem Counting.of_beside {n : Nat} {s s' : State σ α τ} (hcounting : Counting n s)
    (hbeside : s.Beside s') : Counting n s' := by
  refine hcounting.of_sameBooks hbeside.sameBooks (by rw [hbeside.workers]) ?_
  rw [hbeside.workers, returned_congr hbeside.filed]
  exact hcounting.ended

theorem Counting.of_worked {n : Nat} {setting : Setting σ} {s s' : State σ α τ} {w : Nat}
    (hcounting : Counting n s) (hdelivery : Delivery s) (hcalm : s.calledOff = false)
    (hworked : Worked setting s w s') : Counting n s' := by
  refine hcounting.of_sameBooks hworked.sameBooks hworked.length_workers ?_
  -- In a run that nobody called off, a worker that ends held a record, which it had handed over.
  intro i hended
  rcases hworked.ended hcalm hended with hbefore | ⟨r, hheld⟩
  · obtain ⟨r, hr⟩ := hcounting.ended i hbefore
    exact ⟨r, hworked.returned hr⟩
  · exact ⟨r, hworked.returned (hdelivery.held i r hheld)⟩

theorem Counting.of_returned {n : Nat} {s s' : State σ α τ} (hcounting : Counting n s)
    (hworkers : s'.workers = s.workers) (hfiled : s'.filed = s.filed)
    {result : Except FleetFault Outcome} (hresult : s'.receiver = .returned result) :
    Counting n s' := by
  constructor
  · rw [hworkers]
    exact hcounting.length
  · rw [hworkers, returned_congr hfiled]
    exact hcounting.ended
  all_goals
    rw [hresult]
    exact nofun

theorem Counting.of_received {n : Nat} {s s' : State σ α τ} (hcounting : Counting n s)
    (hdelivery : Delivery s) (hcalm : s.calledOff = false) (hreceived : Received s s') :
    Counting n s' := by
  cases hreceived with
  | counted hreceiver =>
      have hall := hcounting.receiving 0 hreceiver
      refine ⟨hcounting.length, hcounting.ended, nofun, nofun, ?_⟩
      intro calledOff hfinishing
      cases hfinishing
      exact ⟨rfl, by rw [← hall, Nat.zero_add]; rfl⟩
  | stopped _ hcalledOff =>
      rw [hcalm] at hcalledOff
      cases hcalledOff
  | @deserted left hreceiver hempty hended =>
      -- The records of all workers were merged, but then none is left to wait for.
      have hopen : s.receiver.result? = none := by
        rw [hreceiver]
        rfl
      have hlength := (hdelivery.accounted hopen).length_eq
      rw [delivered_of_ended hended, hempty, List.append_nil, List.length_map] at hlength
      have hall := le_length_returned hcounting hended
      have hcount := hcounting.receiving _ hreceiver
      omega
  | emptied hreceiver _ => exact absurd hreceiver hcounting.draining
  | took hnext _ htook =>
      have hreturned := returned_congr htook.filed
      rcases htook.cases_receiver hnext with ⟨left, hreceiver, hafter⟩ | ⟨hreceiver, -⟩
      · have hcount := hcounting.receiving _ hreceiver
        constructor
        case length =>
          rw [htook.workers]
          exact hcounting.length
        case ended =>
          rw [htook.workers, hreturned]
          exact hcounting.ended
        case receiving =>
          intro left' hleft
          rw [hafter] at hleft
          cases hleft
          rw [htook.merged, List.length_cons]
          omega
        case draining =>
          rw [hafter]
          exact nofun
        case finishing =>
          rw [hafter]
          exact nofun
      · exact absurd hreceiver hcounting.draining
  | refused => exact hcounting.of_returned rfl rfl rfl
  | finished _ hfinished =>
      rcases hfinished.receiver with hok | ⟨path, cause, hfault⟩
      · exact hcounting.of_returned hfinished.workers hfinished.filed hok
      · exact hcounting.of_returned hfinished.workers hfinished.filed hfault

/-!
## The end
-/

theorem perm_range_of_nodup {l : List Nat} {n : Nat} (hnodup : l.Nodup) (hbelow : l ⊆ List.range n)
    (hmany : n ≤ l.length) : l.Perm (List.range n) := by
  refine (List.perm_ext_iff_of_nodup hnodup List.nodup_range).2 ?_
  intro w
  constructor
  · intro hw
    exact hbelow hw
  · intro hw
    refine Decidable.byContradiction ?_
    intro hmissing
    have hmore : (w :: l).length ≤ (List.range n).length := by
      refine (List.nodup_cons.2 ⟨hmissing, hnodup⟩).length_le_of_subset ?_
      exact List.cons_subset.2 ⟨hw, hbelow⟩
    rw [List.length_cons, List.length_range] at hmore
    omega

theorem Delivery.length_returned_le {s : State σ α τ} (hdelivery : Delivery s) :
    s.returned.length ≤ s.workers.length := by
  have hsubset : s.returned.map Prod.fst ⊆ List.range s.workers.length := by
    intro w hw
    obtain ⟨⟨w, r⟩, hr, rfl⟩ := List.mem_map.1 hw
    rw [List.mem_range]
    exact hdelivery.inside w r hr
  have hlength := hdelivery.once.length_le_of_subset hsubset
  rwa [List.length_range, List.length_map] at hlength

theorem Delivery.length_merged_le {s : State σ α τ} (hdelivery : Delivery s)
    (hopen : s.receiver.result? = none) :
    s.merged.length + s.channel.length ≤ s.returned.length := by
  have hlength := (hdelivery.accounted hopen).length_eq
  rw [List.length_append, delivered, List.length_map] at hlength
  rw [← hlength]
  exact List.length_filter_le _ _

theorem Delivery.all_merged {s : State σ α τ} (hdelivery : Delivery s)
    (hopen : s.receiver.result? = none) (hmerged : s.merged.length = s.workers.length) :
    s.merged.Perm (s.returned.map Prod.snd) ∧
      (s.returned.map Prod.fst).Perm (List.range s.workers.length) ∧
      ∀ e ∈ s.returned, s.held? e.1 = none := by
  have hperm := hdelivery.accounted hopen
  have hreturned := hdelivery.length_returned_le
  -- As many records were handed over as were merged, so none is in the channel or held.
  have hlength := hdelivery.length_merged_le hopen
  have hempty : s.channel = [] := List.length_eq_zero_iff.1 (by omega)
  rw [hempty, List.append_nil] at hperm
  have hfilter := hperm.length_eq
  rw [delivered, List.length_map] at hfilter
  have hall : (s.returned.filter fun e => (s.held? e.1).isNone) = s.returned :=
    List.filter_sublist.eq_of_length (by omega)
  refine ⟨?_, ?_, ?_⟩
  · rw [delivered, hall] at hperm
    exact hperm.symm
  · refine perm_range_of_nodup hdelivery.once ?_ ?_
    · intro w hw
      obtain ⟨⟨w, r⟩, hr, rfl⟩ := List.mem_map.1 hw
      rw [List.mem_range]
      exact hdelivery.inside w r hr
    · rw [List.length_map]
      omega
  · intro e he
    exact Option.isNone_iff_eq_none.1 (List.filter_eq_self.1 hall e he)

theorem merged_of_finishing {n : Nat} {s : State σ α τ} {calledOff : Bool}
    (hcounting : Counting n s) (hdelivery : Delivery s)
    (hfinishing : s.receiver = .finishing calledOff) :
    s.merged.Perm (s.returned.map Prod.snd) ∧
      (s.returned.map Prod.fst).Perm (List.range n) := by
  have hopen : s.receiver.result? = none := by
    rw [hfinishing]
    rfl
  have hmerged := (hcounting.finishing calledOff hfinishing).2
  rw [← hcounting.length] at hmerged ⊢
  obtain ⟨hrecords, hworkers, -⟩ := hdelivery.all_merged hopen hmerged
  exact ⟨hrecords, hworkers⟩

/-!
## All moves
-/

variable [Rate.Meter α τ] [LE τ] [DecidableLE τ] {setting : Setting σ}

theorem calm_of_reaches {s s' : State σ α τ} (hreaches : s.Reaches setting s')
    (hcalm : s'.calledOff = false) : s.calledOff = false := by
  induction hreaches with
  | here => exact hcalm
  | @move a b m _ hstep ih =>
      refine ih ?_
      cases hcalledOff : a.calledOff with
      | false => rfl
      | true =>
          rw [calledOff_of_step hstep hcalledOff] at hcalm
          cases hcalm

theorem counting_of_reaches {n : Nat} {first s : State σ α τ} (hfirst : Counting n first)
    (hdelivery : Delivery first) (hreaches : first.Reaches setting s)
    (hcalm : s.calledOff = false) : Counting n s := by
  induction hreaches with
  | here => exact hfirst
  | @move a b m hbefore hstep ih =>
      have hcalm' := calm_of_reaches (reaches_of_step hstep) hcalm
      have hcounting := ih hcalm'
      have hdelivery' := hdelivery.of_reaches hbefore
      rcases cases_of_step hstep with ⟨hbeside, -⟩ | ⟨w, hworked⟩ | hreceive
      · exact hcounting.of_beside hbeside
      · exact hcounting.of_worked hdelivery' hcalm' hworked
      · exact hcounting.of_received hdelivery' hcalm' (received_of_receive hreceive)

theorem cases_of_returned {first last : State σ α τ} {result : Except FleetFault Outcome}
    (hfirst : first.receiver.result? = none) (hreaches : first.Reaches setting last)
    (hreturned : last.receiver = .returned result) :
    ∃ s, first.Reaches setting s ∧ s.Reaches setting last ∧ s.receiver.result? = none ∧
      ((∃ calledOff, s.receiver = .finishing calledOff) ∨
        ∃ r fault, s.next? = some r ∧ s.status.merge r = .error fault ∧
          result = .error fault) := by
  induction hreaches with
  | here =>
      rw [hreturned] at hfirst
      cases hfirst
  | @move a b m hbefore hstep ih =>
      -- Either the run has returned before, or it returns with this move.
      cases hopen : a.receiver.result? with
      | some result' =>
          have hsame : a.receiver = .returned result := by
            have hreceiver := Receiver.eq_returned_of_result? hopen
            have hbooks := sameBooks_of_returned hreceiver (reaches_of_step hstep)
            rw [← hbooks.receiver]
            exact hreturned
          obtain ⟨s, hs, hafter, hcases⟩ := ih hsame
          exact ⟨s, hs, hafter.move hstep, hcases⟩
      | none =>
          refine ⟨a, hbefore, reaches_of_step hstep, hopen, ?_⟩
          have hstill : ∀ receiver, receiver = a.receiver → receiver ≠ .returned result := by
            rintro receiver rfl hreceiver
            rw [hreceiver] at hopen
            cases hopen
          rcases cases_of_step hstep with ⟨hbeside, -⟩ | ⟨w, hworked⟩ | hreceive
          · exact absurd hreturned (hstill _ hbeside.receiver)
          · exact absurd hreturned (hstill _ hworked.sameBooks.receiver)
          · cases received_of_receive hreceive with
            | counted | stopped | deserted | emptied => cases hreturned
            | took hnext _ htook =>
                rcases htook.cases_receiver hnext with ⟨left, -, hafter⟩ | ⟨-, hafter⟩
                · rw [hafter] at hreturned
                  cases hreturned
                · rw [hafter] at hreturned
                  cases hreturned
            | refused hnext hmerge _ =>
                cases hreturned
                exact Or.inr ⟨_, _, hnext, hmerge, rfl⟩
            | finished hreceiver _ => exact Or.inl ⟨_, hreceiver⟩

end State
end Run
end LogHarvest
