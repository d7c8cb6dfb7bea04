import LogHarvest.Proofs.Run.Ledger
import LogHarvest.Proofs.Run.Workers

/-!
# Every record is somewhere

A collector hands its record over once.  From then on its worker holds it, or it
is in the channel, or the receiver merged it; a record is lost only after the
receiver has returned.  `Delivery` is this account, and every move keeps it.
-/

namespace LogHarvest
namespace Run

variable {σ α τ : Type}

theorem perm_filter_of_turn {β : Type} {l : List (Nat × β)} {w : Nat} {b : β} {p q : Nat → Bool}
    (hnodup : (l.map Prod.fst).Nodup) (hmem : (w, b) ∈ l) (hbefore : p w = false)
    (hafter : q w = true) (hother : ∀ i, i ≠ w → q i = p i) :
    (l.filter fun e => q e.1).Perm ((w, b) :: l.filter fun e => p e.1) := by
  induction l with
  | nil => cases hmem
  | cons e rest ih =>
      obtain ⟨hfresh, hrest⟩ := List.nodup_cons.1 hnodup
      rcases List.mem_cons.1 hmem with rfl | hlater
      · have hsame : (rest.filter fun e => q e.1) = rest.filter fun e => p e.1 := by
          refine List.filter_congr ?_
          intro e he
          refine hother e.1 ?_
          intro hw
          exact hfresh (List.mem_map.2 ⟨e, he, hw⟩)
        rw [List.filter_cons, List.filter_cons, if_pos hafter, if_neg (by simp [hbefore]), hsame]
      · have hne : e.1 ≠ w := by
          intro hw
          rw [hw] at hfresh
          exact hfresh (List.mem_map.2 ⟨(w, b), hlater, rfl⟩)
        have hrec := ih hrest hlater
        rw [List.filter_cons, List.filter_cons, hother e.1 hne]
        split
        · exact (hrec.cons e).trans (.swap (w, b) e _)
        · exact hrec

theorem Duty.record?_of_collector? {duty : Duty τ} {c : Collector}
    (hduty : duty.collector? = some c) : duty.record? = none := by
  cases duty <;> first | rfl | cases hduty

namespace State

def delivered (s : State σ α τ) : List Record :=
  (s.returned.filter fun e => (s.held? e.1).isNone).map Prod.snd

/-- Where the records of a run are. -/
structure Delivery (s : State σ α τ) : Prop where
  once : (s.returned.map Prod.fst).Nodup
  inside : ∀ w r, (w, r) ∈ s.returned → w < s.workers.length
  /-- Who still carries a collector has not handed a record over. -/
  carrying : ∀ w c r, s.collector? w = some c → (w, r) ∉ s.returned
  held : ∀ w r, s.held? w = some r → (w, r) ∈ s.returned
  accounted : s.receiver.result? = none → s.delivered.Perm (s.merged ++ s.channel)

theorem mem_delivered {s : State σ α τ} {r : Record} :
    r ∈ s.delivered ↔ ∃ w, (w, r) ∈ s.returned ∧ s.held? w = none := by
  simp [delivered, Option.isNone_iff_eq_none]

/-!
## Moves that deliver nothing
-/

theorem Delivery.of_same {s s' : State σ α τ} (hdelivery : Delivery s)
    (hreturned : s'.returned = s.returned) (hlength : s'.workers.length = s.workers.length)
    (hcarrying : ∀ w c, s'.collector? w = some c → ∃ c', s.collector? w = some c')
    (hheld : ∀ w, s'.held? w = s.held? w)
    (haccounted : s'.receiver.result? = none →
      s.receiver.result? = none ∧ (s.merged ++ s.channel).Perm (s'.merged ++ s'.channel)) :
    Delivery s' := by
  have hdelivered : s'.delivered = s.delivered := by
    simp only [delivered, hreturned, hheld]
  constructor
  case once =>
    rw [hreturned]
    exact hdelivery.once
  case inside =>
    intro w r hmem
    rw [hreturned] at hmem
    rw [hlength]
    exact hdelivery.inside w r hmem
  case carrying =>
    intro w c r hcollector
    obtain ⟨c', hbefore⟩ := hcarrying w c hcollector
    rw [hreturned]
    exact hdelivery.carrying w c' r hbefore
  case held =>
    intro w r hholds
    rw [hheld] at hholds
    rw [hreturned]
    exact hdelivery.held w r hholds
  case accounted =>
    intro hopen
    obtain ⟨hbefore, hperm⟩ := haccounted hopen
    rw [hdelivered]
    exact (hdelivery.accounted hbefore).trans hperm

theorem Delivery.of_beside {s s' : State σ α τ} (hdelivery : Delivery s)
    (hbeside : s.Beside s') : Delivery s' := by
  refine hdelivery.of_same (returned_congr hbeside.filed) (by rw [hbeside.workers]) ?_
    (held?_congr hbeside.workers) ?_
  · intro w c hcollector
    rw [collector?_congr hbeside.workers] at hcollector
    exact ⟨c, hcollector⟩
  · intro hopen
    rw [hbeside.receiver] at hopen
    rw [hbeside.merged, hbeside.channel]
    exact ⟨hopen, .refl _⟩

theorem Delivery.of_assign {s : State σ α τ} {w : Nat} {c : Collector} {duty : Duty τ}
    (hdelivery : Delivery s) (hcollector : s.collector? w = some c)
    (hduty : duty.record? = none) : Delivery (s.assign w duty) := by
  have hw := lt_length_of_collector? hcollector
  refine hdelivery.of_same rfl List.length_set ?_ ?_ (fun hopen => ⟨hopen, .refl _⟩)
  · intro i c' hcarried
    rw [collector?_assign hw] at hcarried
    by_cases hi : i = w
    · rw [hi]
      exact ⟨c, hcollector⟩
    · rw [if_neg hi] at hcarried
      exact ⟨c', hcarried⟩
  · intro i
    rw [held?_assign hw]
    split
    · rename_i hi
      rw [hi, hduty, held?_of_collector? hcollector]
    · rfl

/-!
## Handing over and sending
-/

theorem delivery_handOver {s : State σ α τ} {w : Nat} {c : Collector} {r : Record}
    {k : Artifact.Sink} (hdelivery : Delivery s) (hcollector : s.collector? w = some c) :
    Delivery ((s.assign w (.sending r)).note (.returned w r k)) := by
  have hw := lt_length_of_collector? hcollector
  have hfresh : ∀ r', (w, r') ∉ s.returned := fun r' => hdelivery.carrying w c r' hcollector
  have hreturned : ((s.assign w (.sending r)).note (.returned w r k)).returned =
      (w, r) :: s.returned := rfl
  have hheld : ∀ i, ((s.assign w (.sending r)).note (.returned w r k)).held? i =
      if i = w then some r else s.held? i := held?_assign hw (.sending r)
  constructor
  case once =>
    rw [hreturned, List.map_cons, List.nodup_cons]
    refine ⟨?_, hdelivery.once⟩
    intro hmem
    obtain ⟨⟨i, r'⟩, hmem, hi⟩ := List.mem_map.1 hmem
    have hi : i = w := hi
    rw [hi] at hmem
    exact hfresh r' hmem
  case inside =>
    intro i r' hmem
    rw [hreturned] at hmem
    have hlength : ((s.assign w (.sending r)).note (.returned w r k)).workers.length =
        s.workers.length := List.length_set
    rw [hlength]
    rcases List.mem_cons.1 hmem with heq | hmem
    · cases heq
      exact hw
    · exact hdelivery.inside i r' hmem
  case carrying =>
    intro i c' r' hcarried hmem
    have hcollectors := collector?_assign hw (.sending r) i
    rw [show ((s.assign w (.sending r)).note (.returned w r k)).collector? i = _ from hcollectors]
      at hcarried
    by_cases hi : i = w
    · rw [if_pos hi] at hcarried
      cases hcarried
    · rw [if_neg hi] at hcarried
      rw [hreturned] at hmem
      rcases List.mem_cons.1 hmem with heq | hmem
      · exact hi (congrArg Prod.fst heq)
      · exact hdelivery.carrying i c' r' hcarried hmem
  case held =>
    intro i r' hholds
    rw [hheld] at hholds
    rw [hreturned]
    by_cases hi : i = w
    · rw [if_pos hi] at hholds
      cases hholds
      rw [hi]
      exact List.mem_cons_self
    · rw [if_neg hi] at hholds
      exact List.mem_cons_of_mem _ (hdelivery.held i r' hholds)
  case accounted =>
    intro hopen
    -- The new record is held by its worker, so it does not count as delivered yet.
    have hsame : (s.returned.filter fun e =>
        (((s.assign w (.sending r)).note (.returned w r k)).held? e.1).isNone) =
        s.returned.filter fun e => (s.held? e.1).isNone := by
      refine List.filter_congr ?_
      rintro ⟨i, r'⟩ hmem
      rw [hheld, if_neg]
      rintro rfl
      exact hfresh r' hmem
    have hdelivered : ((s.assign w (.sending r)).note (.returned w r k)).delivered =
        s.delivered := by
      unfold delivered
      rw [hreturned, List.filter_cons_of_neg (by simp [hheld]), hsame]
    rw [hdelivered]
    exact hdelivery.accounted hopen

theorem delivery_release {s : State σ α τ} {w : Nat} {r : Record} (hdelivery : Delivery s)
    (hholds : s.held? w = some r) {channel : List Record}
    (hchannel : s.receiver.result? = none → channel = s.channel ++ [r]) :
    Delivery ({ s with channel := channel }.release w) := by
  have hbooks := sameBooks_release { s with channel := channel } w
  have hreturned : ({ s with channel := channel }.release w).returned = s.returned :=
    returned_congr (filed_release _ w)
  have hheld : ∀ i, ({ s with channel := channel }.release w).held? i =
      if i = w then none else s.held? i := held?_release _ w
  have hcollectors : ∀ i, ({ s with channel := channel }.release w).collector? i =
      if i = w then none else s.collector? i := collector?_release _ w
  constructor
  case once =>
    rw [hreturned]
    exact hdelivery.once
  case inside =>
    intro i r' hmem
    rw [hreturned] at hmem
    rw [length_workers_release]
    exact hdelivery.inside i r' hmem
  case carrying =>
    intro i c r' hcarried
    rw [hcollectors] at hcarried
    rw [hreturned]
    split at hcarried
    · cases hcarried
    · exact hdelivery.carrying i c r' hcarried
  case held =>
    intro i r' hstill
    rw [hheld] at hstill
    rw [hreturned]
    split at hstill
    · cases hstill
    · exact hdelivery.held i r' hstill
  case accounted =>
    intro hopen
    rw [hbooks.receiver] at hopen
    obtain rfl := hchannel hopen
    -- One record turns from held to delivered, and it is the one at the end of the channel.
    have hturn := perm_filter_of_turn (p := fun i => (s.held? i).isNone)
      (q := fun i => (({ s with channel := s.channel ++ [r] }.release w).held? i).isNone)
      hdelivery.once (hdelivery.held w r hholds) (by simp [hholds]) (by simp [hheld])
      (by intro i hi; simp only [hheld, if_neg hi])
    have hdelivered : ({ s with channel := s.channel ++ [r] }.release w).delivered.Perm
        (r :: s.delivered) := by
      unfold delivered
      rw [hreturned]
      exact hturn.map Prod.snd
    have hmerged : ({ s with channel := s.channel ++ [r] }.release w).merged = s.merged :=
      hbooks.merged
    rw [hmerged, channel_release, ← List.append_assoc]
    exact hdelivered.trans
      (((hdelivery.accounted hopen).cons r).trans (List.perm_append_singleton r _).symm)

theorem delivery_start (store : FleetStore) (stages : List Protocol.Stage) (folder : Path)
    (bucket : Rate.Bucket α τ) (now : τ) (calledOff : Bool) (remote : σ) :
    Delivery (start store stages folder bucket now calledOff remote) where
  once := List.nodup_nil
  inside := by
    intro w r hmem
    cases hmem
  carrying := by
    intro w c r _ hmem
    cases hmem
  held := by
    intro w r hholds
    obtain ⟨duty, hduty, hrecord⟩ := Option.bind_eq_some_iff.1 hholds
    obtain ⟨group, i, rfl⟩ := unstarted_of_start hduty
    cases hrecord
  accounted := fun _ => .nil

/-!
## All moves
-/

theorem Delivery.of_worked {setting : Setting σ} {s s' : State σ α τ} {w : Nat}
    (hdelivery : Delivery s) (hworked : Worked setting s w s') : Delivery s' := by
  cases hworked with
  | skipped hcollector _ => exact hdelivery.of_assign hcollector rfl
  | kept hcollector hduty hbeside _ =>
      rw [← collector?_congr hbeside.workers] at hcollector
      exact (hdelivery.of_beside hbeside).of_assign hcollector
        (Duty.record?_of_collector? hduty)
  | unanswered hcollector _ hbeside =>
      rw [← collector?_congr hbeside.workers] at hcollector
      exact (hdelivery.of_beside hbeside).of_assign hcollector rfl
  | @told c answer t hcollector _ _ hbeside =>
      rw [← collector?_congr hbeside.workers] at hcollector
      have hbefore := hdelivery.of_beside hbeside
      cases hrecord : (c.resume answer).record? with
      | none =>
          rw [resume_of_unfinished hrecord]
          exact hbefore.of_assign hcollector rfl
      | some r =>
          rw [resume_of_finished hrecord]
          exact delivery_handOver hbefore hcollector
  | sent hholds _ _ => exact delivery_release hdelivery hholds (fun _ => rfl)
  | dropped hholds hreturned =>
      refine delivery_release hdelivery hholds ?_
      intro hopen
      rw [hreturned] at hopen
      cases hopen

theorem Delivery.of_received {s s' : State σ α τ} (hdelivery : Delivery s)
    (hreceived : Received s s') : Delivery s' := by
  cases hreceived with
  | took hnext _ htook =>
      refine hdelivery.of_same (returned_congr htook.filed) (by rw [htook.workers]) ?_
        (held?_congr htook.workers) ?_
      · intro w c hcollector
        rw [collector?_congr htook.workers] at hcollector
        exact ⟨c, hcollector⟩
      · intro _
        refine ⟨open_of_next? hnext, ?_⟩
        rw [htook.channel, htook.merged]
        exact List.perm_middle
  | finished hreceiver hfinished =>
      refine hdelivery.of_same (returned_congr hfinished.filed) (by rw [hfinished.workers]) ?_
        (held?_congr hfinished.workers) ?_
      · intro w c hcollector
        rw [collector?_congr hfinished.workers] at hcollector
        exact ⟨c, hcollector⟩
      · intro hopen
        rcases hfinished.receiver with hok | ⟨path, cause, hfault⟩
        · rw [hok] at hopen
          cases hopen
        · rw [hfault] at hopen
          cases hopen
  | refused =>
      refine hdelivery.of_same rfl rfl (fun w c hcollector => ⟨c, hcollector⟩) (fun _ => rfl) ?_
      intro hopen
      cases hopen
  | counted hreceiver | stopped hreceiver _ | deserted hreceiver _ _ | emptied hreceiver _ =>
      refine hdelivery.of_same rfl rfl (fun w c hcollector => ⟨c, hcollector⟩) (fun _ => rfl) ?_
      intro _
      rw [hreceiver]
      exact ⟨rfl, .refl _⟩

variable [Rate.Meter α τ] [LE τ] [DecidableLE τ] {setting : Setting σ}

theorem Delivery.of_step {s s' : State σ α τ} {m : Move τ} (hdelivery : Delivery s)
    (hstep : s.step setting m = some s') : Delivery s' := by
  rcases cases_of_step hstep with ⟨hbeside, -⟩ | ⟨w, hworked⟩ | hreceive
  · exact hdelivery.of_beside hbeside
  · exact hdelivery.of_worked hworked
  · exact hdelivery.of_received (received_of_receive hreceive)

theorem Delivery.of_reaches {s s' : State σ α τ} (hdelivery : Delivery s)
    (hreaches : s.Reaches setting s') : Delivery s' := by
  induction hreaches with
  | here => exact hdelivery
  | move _ hstep ih => exact ih.of_step hstep

end State
end Run
end LogHarvest
