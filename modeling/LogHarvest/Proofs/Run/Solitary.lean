import LogHarvest.Proofs.Artifact.Distinct
import LogHarvest.Proofs.Run.Workers

/-!
# A collector on its own

A collector that works on its own is the only one that anything happens to: nobody else
changes what its calls act on, nobody takes its record, and once the record is handed
over, all stays as it is.  So a property of the collector and of its surroundings that
every answer keeps still holds of what is there in the end (`Solitary.of_reaches`).

A `Dialogue` is made up of the answers that the collector gets, each given in the
surroundings that the one before left behind.  It remembers what the commands returned
whose output is to be kept.
-/

namespace LogHarvest

namespace Collector

def kept (c : Collector) (answer : Response) : List (Protocol.LogCommand × Text.Bytes) :=
  match c.phase, answer with
  | .running (.keep command) _ _, .output (.ok output) => [(command, output)]
  | _, _ => []

theorem kept_eq_nil {c : Collector} {answer : Response}
    (hother : ∀ output, answer ≠ .output (.ok output)) : c.kept answer = [] := by
  unfold kept
  split
  · exact absurd rfl (hother _)
  · rfl

theorem sink_resume (c : Collector) (answer : Response) :
    (c.resume answer).sink = c.sink.claimAll ((c.kept answer).map Prod.fst) := by
  obtain ⟨group, subject, stages, sink, phase⟩ := c
  cases phase with
  | running errand rest paths =>
      cases answer with
      | output result =>
          cases result with
          | error cause => cases errand <;> rfl
          | ok output => cases errand <;> rfl
      | _ => cases errand <;> rfl
  | _ => cases answer with
    | connected result => cases result <;> rfl
    | saved result => cases result <;> rfl
    | _ => rfl

end Collector

namespace Run

variable {σ α τ : Type} {setting : Setting σ}

/--
The worker's collector got some answers, each in the surroundings that the one before left
behind; these are the outputs among them that are kept, with their commands.
-/
inductive Dialogue (setting : Setting σ) (w : Nat) (c : Collector) (before : Surroundings σ) :
    List (Protocol.LogCommand × Text.Bytes) → Collector → Surroundings σ → Prop
  | start : Dialogue setting w c before [] c before
  | told {kept : List (Protocol.LogCommand × Text.Bytes)} {c' : Collector} {answer : Response}
      {around after : Surroundings σ} (hdialogue : Dialogue setting w c before kept c' around)
      (hanswer : State.Answer setting w c' around answer after) :
      Dialogue setting w c before (kept ++ c'.kept answer) (c'.resume answer) after

theorem sink_of_dialogue {w : Nat} {c c' : Collector} {before after : Surroundings σ}
    {kept : List (Protocol.LogCommand × Text.Bytes)}
    (hdialogue : Dialogue setting w c before kept c' after) :
    c'.sink = c.sink.claimAll (kept.map Prod.fst) := by
  induction hdialogue with
  | start => rfl
  | told _ _ ih =>
      rw [Collector.sink_resume, ih, List.map_append, Artifact.Sink.claimAll_append]

namespace State

/-- Nobody but the first worker has a collector, and what it was about holds to the end. -/
structure Solitary (P : Surroundings σ → Collector → Prop) (s : State σ α τ) : Prop where
  returned : ∃ result, s.receiver = .returned result
  carrying : ∀ w c, s.collector? w = some c → w = 0 ∧ s.filed = [] ∧ P s.around c
  filed : ∀ w r k, (w, r, k) ∈ s.filed →
    w = 0 ∧ ∃ c, P s.around c ∧ c.record? = some r ∧ c.sink = k

def KeptByAnswers (setting : Setting σ) (P : Surroundings σ → Collector → Prop) : Prop :=
  ∀ {before after : Surroundings σ} {c : Collector} {answer : Response},
    P before c → Answer setting 0 c before answer after → P after (c.resume answer)

variable {P : Surroundings σ → Collector → Prop}

theorem solitary_solo {c : Collector} {tree : Tree} {bucket : Rate.Bucket α τ} {now : τ}
    {calledOff : Bool} {remote : σ} (hfirst : P ⟨remote, tree⟩ c) :
    Solitary P (solo c tree bucket now calledOff remote) where
  returned := ⟨_, rfl⟩
  carrying w c' hcollector := by
    cases w with
    | zero =>
        cases hcollector
        exact ⟨rfl, rfl, hfirst⟩
    | succ w => cases hcollector
  filed w r k hmem := by cases hmem

theorem Solitary.of_same {s s' : State σ α τ} (hsolitary : Solitary P s)
    (hreceiver : s'.receiver = s.receiver) (hfiled : s'.filed = s.filed)
    (haround : s'.around = s.around)
    (hcollectors : ∀ w c, s'.collector? w = some c → s.collector? w = some c) : Solitary P s' where
  returned := by
    rw [hreceiver]
    exact hsolitary.returned
  carrying w c hcollector := by
    rw [hfiled, haround]
    exact hsolitary.carrying w c (hcollectors w c hcollector)
  filed w r k hmem := by
    rw [hfiled] at hmem
    rw [haround]
    exact hsolitary.filed w r k hmem

theorem Solitary.of_told {s t : State σ α τ} {w : Nat} {c : Collector} {answer : Response}
    (hsolitary : Solitary P s) (hcollector : s.collector? w = some c) (hbeside : s.Beside t)
    (htold : P t.around (c.resume answer)) : Solitary P (t.resume w c answer) := by
  obtain ⟨rfl, hnothing, -⟩ := hsolitary.carrying w c hcollector
  have hw : 0 < t.workers.length := by
    rw [hbeside.workers]
    exact lt_length_of_collector? hcollector
  have hreturned : ∃ result, t.receiver = .returned result := by
    rw [hbeside.receiver]
    exact hsolitary.returned
  have hothers : ∀ v c', v ≠ 0 → t.collector? v ≠ some c' := by
    intro v c' hv hother
    rw [collector?_congr hbeside.workers] at hother
    exact hv (hsolitary.carrying v c' hother).1
  rw [← hbeside.filed] at hnothing
  cases hrecord : (c.resume answer).record? with
  | none =>
      rw [resume_of_unfinished hrecord]
      refine ⟨hreturned, ?_, fun v r k hmem => ?_⟩
      · intro v c' hcarries
        rw [collector?_assign hw] at hcarries
        by_cases hv : v = 0
        · rw [if_pos hv] at hcarries
          cases hcarries
          exact ⟨hv, hnothing, htold⟩
        · rw [if_neg hv] at hcarries
          exact absurd hcarries (hothers v c' hv)
      · rw [show (t.assign 0 (.active (c.resume answer))).filed = t.filed from rfl, hnothing]
          at hmem
        cases hmem
  | some r =>
      rw [resume_of_finished hrecord]
      refine ⟨hreturned, ?_, ?_⟩
      · intro v c' hcarries
        rw [show ((t.assign 0 (.sending r)).note
          (.returned 0 r (c.resume answer).sink)).collector? v
          = _ from collector?_assign hw (.sending r) v] at hcarries
        by_cases hv : v = 0
        · rw [if_pos hv] at hcarries
          cases hcarries
        · rw [if_neg hv] at hcarries
          exact absurd hcarries (hothers v c' hv)
      · intro v r' k hmem
        have hmem' : (v, r', k) ∈ (0, r, (c.resume answer).sink) :: t.filed := hmem
        rw [hnothing, List.mem_singleton] at hmem'
        cases hmem'
        exact ⟨rfl, c.resume answer, htold, hrecord, rfl⟩

theorem Solitary.of_unanswered {s t : State σ α τ} {w : Nat} {c : Collector}
    (hsolitary : Solitary P s) (hcollector : s.collector? w = some c) (hbeside : s.Beside t) :
    Solitary P (t.assign w (.unanswered c)) := by
  obtain ⟨rfl, hnothing, -⟩ := hsolitary.carrying w c hcollector
  refine ⟨?_, fun v c' hcarries => ?_, fun v r k hmem => ?_⟩
  · obtain ⟨result, hreturned⟩ := hsolitary.returned
    exact ⟨result, hbeside.receiver.trans hreturned⟩
  · rw [collector?_assign (hbeside.workers ▸ lt_length_of_collector? hcollector)] at hcarries
    split at hcarries
    · cases hcarries
    · rename_i hv
      rw [collector?_congr hbeside.workers] at hcarries
      exact absurd (hsolitary.carrying v c' hcarries).1 hv
  · have hfiled : (t.assign 0 (.unanswered c)).filed = s.filed := hbeside.filed
    rw [hfiled, hnothing] at hmem
    cases hmem

theorem Solitary.of_worked {s s' : State σ α τ} {w : Nat} (hkept : KeptByAnswers setting P)
    (hsolitary : Solitary P s) (hworked : Worked setting s w s') : Solitary P s' := by
  cases hworked with
  | skipped hcollector _ =>
      refine hsolitary.of_same rfl rfl rfl fun v c' hcarries => ?_
      rw [collector?_assign (lt_length_of_collector? hcollector)] at hcarries
      split at hcarries
      · cases hcarries
      · exact hcarries
  | @kept c duty t hcollector hduty hbeside haround =>
      refine hsolitary.of_same hbeside.receiver hbeside.filed haround fun v c' hcarries => ?_
      rw [collector?_assign (hbeside.workers ▸ lt_length_of_collector? hcollector)] at hcarries
      split at hcarries
      · rename_i hv
        rw [hv, hcollector, ← hduty, hcarries]
      · rwa [collector?_congr hbeside.workers] at hcarries
  | unanswered hcollector _ hbeside => exact hsolitary.of_unanswered hcollector hbeside
  | told hcollector hanswer _ hbeside =>
      obtain ⟨rfl, -, hholds⟩ := hsolitary.carrying _ _ hcollector
      exact hsolitary.of_told hcollector hbeside (hkept hholds hanswer)
  | sent _ hopen _ =>
      obtain ⟨result, hreturned⟩ := hsolitary.returned
      rw [hreturned] at hopen
      cases hopen
  | dropped _ _ =>
      refine hsolitary.of_same (receiver_release s w) (filed_release s w) (around_release s w)
        fun v c' hcarries => ?_
      rw [collector?_release] at hcarries
      split at hcarries
      · cases hcarries
      · exact hcarries

variable [Rate.Meter α τ] [LE τ] [DecidableLE τ]

theorem Solitary.of_reaches {first last : State σ α τ} (hkept : KeptByAnswers setting P)
    (hfirst : Solitary P first) (hreaches : first.Reaches setting last) : Solitary P last := by
  induction hreaches with
  | here => exact hfirst
  | move _ hstep ih =>
      rcases cases_of_step hstep with ⟨hbeside, haround⟩ | ⟨w, hworked⟩ | hreceive
      · refine ih.of_same hbeside.receiver hbeside.filed haround fun v c hcarries => ?_
        rwa [collector?_congr hbeside.workers] at hcarries
      · exact ih.of_worked hkept hworked
      · obtain ⟨result, hreturned⟩ := ih.returned
        rw [receive, hreturned] at hreceive
        cases hreceive

/-- What a collector handed over is what its dialogue came to, and nothing has changed since. -/
theorem exists_dialogue_of_filed {c : Collector} {tree : Tree} {bucket : Rate.Bucket α τ} {now : τ}
    {calledOff : Bool} {remote : σ} {s : State σ α τ} {w : Nat} {r : Record} {k : Artifact.Sink}
    (hreaches : (solo c tree bucket now calledOff remote).Reaches setting s)
    (hfiled : (w, r, k) ∈ s.filed) :
    w = 0 ∧ ∃ kept c', Dialogue setting 0 c ⟨remote, tree⟩ kept c' s.around ∧
      c'.record? = some r ∧ c'.sink = k := by
  have hfirst : Solitary
      (fun around c' => ∃ kept, Dialogue setting 0 c ⟨remote, tree⟩ kept c' around)
      (solo c tree bucket now calledOff remote) := solitary_solo ⟨[], .start⟩
  have hkept : KeptByAnswers setting fun around c' =>
      ∃ kept, Dialogue setting 0 c ⟨remote, tree⟩ kept c' around :=
    fun ⟨_, hdialogue⟩ hanswer => ⟨_, hdialogue.told hanswer⟩
  have hsolitary := hfirst.of_reaches hkept hreaches
  obtain ⟨hw, c', ⟨kept, hdialogue⟩, hrecord⟩ := hsolitary.filed w r k hfiled
  exact ⟨hw, kept, c', hdialogue, hrecord⟩

end State
end Run
end LogHarvest
