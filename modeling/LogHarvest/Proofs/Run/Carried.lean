import LogHarvest.Proofs.Fleet.Roster
import LogHarvest.Proofs.Run.Ledger
import LogHarvest.Proofs.Run.Workers

/-!
# What holds of every collector

A property of a worker's collector and of its surroundings holds throughout a run
if three things keep it: an answer to a collector, a call that is never answered,
and the writing of a document.  The property may speak of something that no state
holds, such as what was asked of the hosts so far; then every answer has to say
what becomes of that, for all collectors alike.

`Carried.of_reaches` draws the conclusion for the collectors under way and for
those whose records were handed over.
-/

namespace LogHarvest

namespace Run

theorem collectors_eq_map (status : Status) (stages : List Protocol.Stage) (folder : Path) :
    collectors status stages folder =
      status.roster.map fun m => Collector.new m.1 m.2 stages folder := by
  simp only [collectors, Status.roster, List.map_flatMap, List.map_map, Function.comp_def]

namespace State

variable {σ α τ γ : Type}

/-!
## Calling off is for good
-/

theorem Worked.calledOff {setting : Setting σ} {s s' : State σ α τ} {w : Nat}
    (hworked : Worked setting s w s') (hcalledOff : s.calledOff = true) :
    s'.calledOff = true := by
  cases hworked with
  | skipped _ _ => exact hcalledOff
  | kept _ _ hbeside _ => exact hbeside.calledOff hcalledOff
  | unanswered _ _ hbeside => exact hbeside.calledOff hcalledOff
  | told _ _ _ hbeside =>
      rw [calledOff_resume]
      exact hbeside.calledOff hcalledOff
  | sent _ _ _ =>
      rw [calledOff_release]
      exact hcalledOff
  | dropped _ _ =>
      rw [calledOff_release]
      exact hcalledOff

theorem Received.calledOff {s s' : State σ α τ} (hreceived : Received s s') :
    s'.calledOff = s.calledOff := by
  cases hreceived with
  | took _ _ htook => exact htook.calledOff
  | finished _ hfinished => exact hfinished.calledOff
  | _ => rfl

theorem calledOff_of_step [Rate.Meter α τ] [LE τ] [DecidableLE τ] {setting : Setting σ}
    {s s' : State σ α τ} {m : Move τ} (hstep : s.step setting m = some s')
    (hcalledOff : s.calledOff = true) : s'.calledOff = true := by
  rcases cases_of_step hstep with ⟨hbeside, -⟩ | ⟨w, hworked⟩ | hreceive
  · exact hbeside.calledOff hcalledOff
  · exact hworked.calledOff hcalledOff
  · rw [(received_of_receive hreceive).calledOff]
    exact hcalledOff

theorem calledOff_of_reaches [Rate.Meter α τ] [LE τ] [DecidableLE τ] {setting : Setting σ}
    {s last : State σ α τ} (hcalledOff : s.calledOff = true)
    (hreaches : s.Reaches setting last) : last.calledOff = true := by
  induction hreaches with
  | here => exact hcalledOff
  | move _ hstep ih => exact calledOff_of_step hstep ih

@[simp] theorem calledOff_stopAll (s : State σ α τ) : s.stopAll.calledOff = true := by
  unfold stopAll
  split
  · assumption
  · rfl

/-!
## Properties that last
-/

/-- The property outlasts whatever can happen to the collectors of a run. -/
structure Lasting (setting : Setting σ) (calledOff : Bool)
    (P : γ → Surroundings σ → Nat → Collector → Prop) : Prop where
  told : ∀ {g : γ} {before after : Surroundings σ} {w : Nat} {c : Collector} {answer : Response},
    P g before w c → Answer setting w c before answer after →
    (answer = .calledOff → calledOff = true) →
    ∃ g', P g' after w (c.resume answer) ∧
      ∀ v c', v ≠ w → P g before v c' → P g' after v c'
  unanswered : ∀ {g : γ} {before after : Surroundings σ} {w : Nat} {c : Collector},
    P g before w c → Unanswered setting w c before after →
    ∃ g', ∀ v c', v ≠ w → P g before v c' → P g' after v c'
  rewritten : ∀ {g : γ} {before : Surroundings σ} {tree : Tree} {v : Nat} {c : Collector},
    P g before v c → Rewritten before.tree tree → P g ⟨before.state, tree⟩ v c

structure Carried (P : γ → Surroundings σ → Nat → Collector → Prop) (s : State σ α τ) :
    Prop where
  carrying : ∃ g, ∀ w c, s.collector? w = some c → P g s.around w c
  filed : ∀ w r k, (w, r, k) ∈ s.filed →
    ∃ g around c, P g around w c ∧ c.record? = some r ∧ c.sink = k

variable {setting : Setting σ} {calledOff : Bool}
  {P : γ → Surroundings σ → Nat → Collector → Prop}

theorem Carried.of_same {s s' : State σ α τ} (hcarried : Carried P s)
    (hfiled : s'.filed = s.filed)
    (hcarrying : ∃ g, ∀ w c, s'.collector? w = some c → P g s'.around w c) : Carried P s' := by
  constructor
  · exact hcarrying
  · intro w r k hmem
    rw [hfiled] at hmem
    exact hcarried.filed w r k hmem

theorem Carried.of_assign {s : State σ α τ} {w : Nat} {duty : Duty τ} (hcarried : Carried P s)
    (hw : w < s.workers.length)
    (hduty : ∀ c, duty.collector? = some c → s.collector? w = some c) :
    Carried P (s.assign w duty) := by
  obtain ⟨g, hcarrying⟩ := hcarried.carrying
  refine hcarried.of_same rfl ⟨g, ?_⟩
  intro i c hcollector
  rw [collector?_assign hw] at hcollector
  by_cases hi : i = w
  · rw [if_pos hi] at hcollector
    rw [hi]
    exact hcarrying w c (hduty c hcollector)
  · rw [if_neg hi] at hcollector
    exact hcarrying i c hcollector

theorem carried_resume {s : State σ α τ} {g : γ} {w : Nat} {c : Collector} {answer : Response}
    (hcollector : s.collector? w = some c)
    (hfiled : ∀ v r k, (v, r, k) ∈ s.filed →
      ∃ g around c, P g around v c ∧ c.record? = some r ∧ c.sink = k)
    (hothers : ∀ v c', v ≠ w → s.collector? v = some c' → P g s.around v c')
    (htold : P g s.around w (c.resume answer)) : Carried P (s.resume w c answer) := by
  have hw := lt_length_of_collector? hcollector
  cases hrecord : (c.resume answer).record? with
  | none =>
      rw [resume_of_unfinished hrecord]
      refine ⟨⟨g, ?_⟩, hfiled⟩
      intro i c' hcarries
      rw [collector?_assign hw] at hcarries
      by_cases hi : i = w
      · rw [if_pos hi] at hcarries
        cases hcarries
        rw [hi]
        exact htold
      · rw [if_neg hi] at hcarries
        exact hothers i c' hi hcarries
  | some r =>
      rw [resume_of_finished hrecord]
      refine ⟨⟨g, ?_⟩, ?_⟩
      · intro i c' hcarries
        have hshare := collector?_assign hw (.sending r) i
        rw [show ((s.assign w (.sending r)).note
          (.returned w r (c.resume answer).sink)).collector? i
          = _ from hshare] at hcarries
        by_cases hi : i = w
        · rw [if_pos hi] at hcarries
          cases hcarries
        · rw [if_neg hi] at hcarries
          exact hothers i c' hi hcarries
      · intro v r' k hmem
        have hfiled' : (v, r', k) ∈ (w, r, (c.resume answer).sink) :: s.filed := hmem
        rcases List.mem_cons.1 hfiled' with heq | hearlier
        · cases heq
          exact ⟨g, s.around, c.resume answer, htold, hrecord, rfl⟩
        · exact hfiled v r' k hearlier

theorem carried_release {s : State σ α τ} {w : Nat} (hcarried : Carried P s) :
    Carried P (s.release w) := by
  obtain ⟨g, hcarrying⟩ := hcarried.carrying
  refine hcarried.of_same (filed_release s w) ⟨g, ?_⟩
  intro i c hcarries
  rw [collector?_release] at hcarries
  split at hcarries
  · cases hcarries
  · rw [around_release]
    exact hcarrying i c hcarries

theorem Carried.of_worked {s s' : State σ α τ} {w : Nat} (hlasting : Lasting setting calledOff P)
    (hcarried : Carried P s) (hcalledOff : s.calledOff = true → calledOff = true)
    (hworked : Worked setting s w s') : Carried P s' := by
  cases hworked with
  | skipped hcollector _ =>
      exact hcarried.of_assign (lt_length_of_collector? hcollector) nofun
  | @kept c duty t hcollector hduty hbeside haround =>
      have ht : Carried P t := by
        obtain ⟨g, hcarrying⟩ := hcarried.carrying
        refine hcarried.of_same hbeside.filed ⟨g, ?_⟩
        intro i c' hcarries
        rw [collector?_congr hbeside.workers] at hcarries
        rw [haround]
        exact hcarrying i c' hcarries
      have hcollector' : t.collector? w = some c := by
        rw [collector?_congr hbeside.workers, hcollector]
      refine ht.of_assign (lt_length_of_collector? hcollector') ?_
      intro c' hc'
      rw [hduty] at hc'
      cases hc'
      exact hcollector'
  | @unanswered c t hcollector hnever hbeside =>
      obtain ⟨g, hcarrying⟩ := hcarried.carrying
      obtain ⟨g', hothers⟩ := hlasting.unanswered (hcarrying w c hcollector) hnever
      have hw : w < t.workers.length := by
        rw [hbeside.workers]
        exact lt_length_of_collector? hcollector
      have hfiled : (t.assign w (.unanswered c)).filed = s.filed := hbeside.filed
      refine hcarried.of_same hfiled ⟨g', ?_⟩
      intro i c' hcarries
      rw [collector?_assign hw, collector?_congr hbeside.workers] at hcarries
      by_cases hi : i = w
      · rw [if_pos hi] at hcarries
        cases hcarries
      · rw [if_neg hi] at hcarries
        exact hothers i c' hi (hcarrying i c' hcarries)
  | @told c answer t hcollector hanswer hstopped hbeside =>
      -- The ghost moves on with the answer, so it has to be carried on for the others too.
      obtain ⟨g, hcarrying⟩ := hcarried.carrying
      obtain ⟨g', htold, hothers⟩ := hlasting.told (hcarrying w c hcollector) hanswer
        (fun h => hcalledOff (hstopped h))
      have hcollector' : t.collector? w = some c := by
        rw [collector?_congr hbeside.workers, hcollector]
      refine carried_resume hcollector' ?_ ?_ htold
      · intro v r k hmem
        rw [hbeside.filed] at hmem
        exact hcarried.filed v r k hmem
      · intro v c' hv hcarries
        rw [collector?_congr hbeside.workers] at hcarries
        exact hothers v c' hv (hcarrying v c' hcarries)
  | sent _ _ _ =>
      refine carried_release (hcarried.of_same rfl ?_)
      exact hcarried.carrying
  | dropped _ _ => exact carried_release hcarried

theorem Carried.of_received {s s' : State σ α τ} (hlasting : Lasting setting calledOff P)
    (hcarried : Carried P s) (hreceived : Received s s') : Carried P s' := by
  obtain ⟨g, hcarrying⟩ := hcarried.carrying
  have hrewritten : ∀ tree, Rewritten s.tree tree → ∀ w c, s.collector? w = some c →
      P g ⟨s.remote, tree⟩ w c := by
    intro tree htree w c hcollector
    exact hlasting.rewritten (hcarrying w c hcollector) htree
  cases hreceived with
  | took _ _ htook =>
      refine hcarried.of_same htook.filed ⟨g, ?_⟩
      intro w c hcollector
      rw [collector?_congr htook.workers] at hcollector
      rw [around, htook.remote]
      exact hrewritten s'.tree htook.tree w c hcollector
  | finished _ hfinished =>
      refine hcarried.of_same hfinished.filed ⟨g, ?_⟩
      intro w c hcollector
      rw [collector?_congr hfinished.workers] at hcollector
      rw [around, hfinished.remote]
      exact hrewritten s'.tree hfinished.tree w c hcollector
  | _ => exact ⟨hcarried.carrying, hcarried.filed⟩

/-!
## From the first state on
-/

theorem length_workers_start (store : FleetStore) (stages : List Protocol.Stage) (folder : Path)
    (bucket : Rate.Bucket α τ) (now : τ) (calledOff : Bool) (remote : σ) :
    (start store stages folder bucket now calledOff remote).workers.length =
      store.config.status.roster.length := by
  simp [start, collectors_eq_map]

theorem collector?_start (store : FleetStore) (stages : List Protocol.Stage) (folder : Path)
    (bucket : Rate.Bucket α τ) (now : τ) (calledOff : Bool) (remote : σ) (w : Nat) :
    (start store stages folder bucket now calledOff remote).collector? w =
      store.config.status.roster[w]?.map fun m => .new m.1 m.2 stages folder := by
  simp only [collector?, start, collectors_eq_map, List.getElem?_map]
  cases store.config.status.roster[w]? <;> rfl

theorem carried_start {store : FleetStore} {stages : List Protocol.Stage} {folder : Path}
    {bucket : Rate.Bucket α τ} {now : τ} {calledOff : Bool} {remote : σ} {g : γ}
    (hfirst : ∀ w group i, store.config.status.roster[w]? = some (group, i) →
      P g ⟨remote, store.tree⟩ w (.new group i stages folder)) :
    Carried P (start store stages folder bucket now calledOff remote) where
  carrying := by
    refine ⟨g, ?_⟩
    intro w c hcollector
    rw [collector?_start] at hcollector
    obtain ⟨⟨group, i⟩, hmember, rfl⟩ := Option.map_eq_some_iff.1 hcollector
    exact hfirst w group i hmember
  filed := by
    intro w r k hmem
    cases hmem

variable [Rate.Meter α τ] [LE τ] [DecidableLE τ]

theorem Carried.of_reaches {first last : State σ α τ} (hlasting : Lasting setting calledOff P)
    (hfirst : Carried P first) (hcalledOff : last.calledOff = true → calledOff = true)
    (hreaches : first.Reaches setting last) : Carried P last := by
  induction hreaches with
  | here => exact hfirst
  | @move s s' m _ hstep ih =>
      have hbefore : s.calledOff = true → calledOff = true :=
        fun h => hcalledOff (calledOff_of_step hstep h)
      have hcarried := ih hbefore
      rcases cases_of_step hstep with ⟨hbeside, haround⟩ | ⟨w, hworked⟩ | hreceive
      · obtain ⟨g, hcarrying⟩ := hcarried.carrying
        refine hcarried.of_same hbeside.filed ⟨g, ?_⟩
        intro w c hcollector
        rw [collector?_congr hbeside.workers] at hcollector
        rw [haround]
        exact hcarrying w c hcollector
      · exact hcarried.of_worked hlasting hbefore hworked
      · exact hcarried.of_received hlasting (received_of_receive hreceive)

end State
end Run
end LogHarvest
