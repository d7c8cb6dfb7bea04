import LogHarvest.Proofs.Fleet.Entries
import LogHarvest.Proofs.Run.Settling

/-!
# What a run that ends well has counted

A run adds up what it merged, so its counts are those of the entries that it added
and of the failures that it met.  It ends before it has counted all members only if
it was called off and says so.
-/

namespace LogHarvest
namespace Run
namespace State

variable {σ α τ : Type} [Rate.Meter α τ] [LE τ] [DecidableLE τ] {setting : Setting σ}

theorem tally_of_returned {first last : State σ α τ} {outcome : Outcome}
    (hfirst : first.receiver.result? = none) (hreaches : first.Reaches setting last)
    (hreturned : last.receiver = .returned (.ok outcome)) : outcome.tally = last.tally := by
  induction hreaches with
  | here =>
      rw [hreturned] at hfirst
      cases hfirst
  | @move a b m _ hstep ih =>
      have hkept : a.SameBooks b → outcome.tally = b.tally := by
        intro hsame
        rw [hsame.receiver] at hreturned
        exact (ih hreturned).trans hsame.tally.symm
      rcases cases_of_step hstep with ⟨hbeside, -⟩ | ⟨w, hworked⟩ | hreceive
      · exact hkept hbeside.sameBooks
      · exact hkept hworked.sameBooks
      · cases received_of_receive hreceive with
        | counted | stopped | deserted | emptied | refused => cases hreturned
        | took hnext _ htook =>
            rcases htook.cases_receiver hnext with ⟨left, -, hafter⟩ | ⟨-, hafter⟩
            · rw [hafter] at hreturned
              cases hreturned
            · rw [hafter] at hreturned
              cases hreturned
        | finished _ hfinished =>
            rcases hfinished.receiver with hok | ⟨path, cause, hfault⟩
            · rw [hok] at hreturned
              cases hreturned
              exact hfinished.tally.symm
            · rw [hfault] at hreturned
              cases hreturned

end State
end Run

namespace Fleet

open Run State

variable {σ : Type} {setting : Setting σ} {stages : List Protocol.Stage} {endings : List String}
  {f : Fleet σ} {folder : Path} {last : State σ Float Rate.Millis}

/--
Whatever the order of the moves and whenever a run is called off: if it ends well, it has
counted the entries that it added, the paths in them, and the failures that it merged.
They are not more than the members, and they are as many unless the run says that it was
called off.
-/
theorem counts_of_returned {outcome : Outcome}
    (hfetching : f.Fetching setting stages endings folder last)
    (hresult : last.receiver.result? = some (.ok outcome)) :
    let before := f.store.config.status
    let added := last.status.entriesSince before
    outcome.tally.collected = added.length ∧
      last.status.collected = before.collected + outcome.tally.collected ∧
      outcome.tally.totalFiles = (added.flatMap fun e => e.paths).length ∧
      outcome.tally.failed = (last.merged.countP fun r => !r.isOk) ∧
      ((f.prepared endings).startRun stages folder).workers.length = before.expected ∧
      outcome.tally.collected + outcome.tally.failed ≤ before.expected ∧
      (outcome.calledOff = false →
        outcome.tally.collected + outcome.tally.failed = before.expected) := by
  intro before added
  have hconfig : (f.prepared endings).store.config = f.store.config :=
    config_prepare f.store endings
  have hbefore : (f.prepared endings).store.config.status = before := by
    rw [hconfig]
  have hreturned := Receiver.eq_returned_of_result? hresult
  have hledger : Ledger ((f.prepared endings).startRun stages folder) last :=
    ledger_of_reaches hfetching.reached
  have hsettling := (settling_start _ _ _ _ _ _ _).of_reaches (delivery_start _ _ _ _ _ _ _)
    (balance_start _ _ _ _ _ _ _) hfetching.reached
  have hmerge : before.mergeAll last.merged = .ok last.status := by
    rw [← hbefore]
    exact hledger.status
  have htally : outcome.tally = Tally.of last.merged :=
    (tally_of_returned rfl hfetching.reached hreturned).trans hledger.tally
  have hall : outcome.tally.collected + outcome.tally.failed = last.merged.length := by
    rw [htally, Tally.collected_add_failed]
  have hadded := Status.entriesSince_of_mergeAll hmerge
  have hcollected : outcome.tally.collected = added.length := by
    rw [htally, Tally.of_eq, hadded.length_eq]
  have hexpected : (f.prepared endings).store.config.status.roster.length = before.expected := by
    rw [hbefore, Status.length_roster]
  refine ⟨hcollected, ?_, ?_, ?_, ?_, ?_, ?_⟩
  · rw [hcollected]
    exact Status.collected_of_mergeAll hmerge
  · rw [htally, Tally.of_eq, (hadded.flatMap_right fun e => e.paths).length_eq]
  · rw [htally, Tally.of_eq]
  · rw [startRun, length_workers_start]
    exact hexpected
  · rw [hall, ← hexpected]
    exact hsettling.inside
  · intro hcalm
    obtain ⟨tally, calledOff⟩ := outcome
    cases hcalm
    rw [hall, ← hexpected]
    exact (hsettling.returned tally hreturned).1

theorem counts_of_returned_pair :
    ∃ last, pair.Fetching refusesSecond [.fixed [⟨"uptime", "up.log", none⟩]] ["x"]
        "/logs/demo-logsx" last ∧
      last.receiver.result? = some (.ok ⟨⟨1, 1, 1⟩, false⟩) ∧
      1 = (last.status.entriesSince pair.store.config.status).length ∧
      1 = (last.merged.countP fun r => !r.isOk) ∧
      1 + 1 = pair.store.config.status.expected := by
  obtain ⟨last, hlast, hfacts⟩ := Option.map_eq_some_iff.1 pairLast_facts
  obtain ⟨hreceiver, -⟩ := Prod.mk.inj hfacts
  have hfetching : pair.Fetching refusesSecond [.fixed [⟨"uptime", "up.log", none⟩]] ["x"]
      "/logs/demo-logsx" last := ⟨by decide +kernel, reaches_of_steps hlast⟩
  have hresult : last.receiver.result? = some (.ok ⟨⟨1, 1, 1⟩, false⟩) := by
    rw [hreceiver]
    rfl
  obtain ⟨hcollected, -, -, hfailed, -, -, hall⟩ := counts_of_returned hfetching hresult
  exact ⟨last, hfetching, hresult, hcollected, hfailed, hall rfl⟩

end Fleet
end LogHarvest
