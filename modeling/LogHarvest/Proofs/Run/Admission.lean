import LogHarvest.Proofs.Run.Carried
import LogHarvest.Proofs.Run.Gate
import LogHarvest.Session.Rehearsal

/-!
# Who still connects after a run was called off

A worker looks whether its run was called off when it begins, and again when it has
to wait at the gate.  It does not look when it gets a permit, nor when it finds a
token.  So a worker that has not begun never connects once the run was called off,
and any other worker connects just in case it finds a token, or the one that it
reserved has matured, before it looks.
-/

namespace LogHarvest
namespace Run

def Duty.isIdle {τ : Type} : Duty τ → Bool
  | .unstarted _ | .ended => true
  | _ => false

namespace State

variable {σ α τ : Type} {setting : Setting σ}

def Connects (s : State σ α τ) (w : Nat) : Prop :=
  ∃ time, (w, Call.connect, time) ∈ s.calls

def Idle (s : State σ α τ) (w : Nat) : Prop :=
  ∃ duty, s.workers[w]? = some duty ∧ duty.isIdle = true

/-- The worker has no session yet, and nothing at the gate keeps it from opening one. -/
inductive Admits [Rate.Meter α τ] [LE τ] (s : State σ α τ) (w : Nat) : Prop
  | free {c : Collector} (hduty : s.workers[w]? = some (.active c)) (hphase : c.phase = .entering)
      (htoken : (s.bucket.allow s.now).1 = true)
  | matured {c : Collector} {due : τ} (hduty : s.workers[w]? = some (.waiting c due))
      (hphase : c.phase = .entering) (hdue : due ≤ s.now)

/-!
## One move
-/

theorem Connects.of_calls {s s' : State σ α τ} {w : Nat} (hcalls : s'.calls = s.calls)
    (hconnects : s'.Connects w) : s.Connects w := by
  obtain ⟨time, hmem⟩ := hconnects
  rw [hcalls] at hmem
  exact ⟨time, hmem⟩

theorem Idle.duty {s : State σ α τ} {w : Nat} {duty : Duty τ} (hidle : s.Idle w)
    (hduty : s.workers[w]? = some duty) : duty.isIdle = true := by
  obtain ⟨_, hsame, hduty'⟩ := hidle
  rw [hduty] at hsame
  cases hsame
  exact hduty'

theorem Idle.of_same {s s' : State σ α τ} {w : Nat} (hidle : s.Idle w)
    (hsame : s'.workers[w]? = s.workers[w]?) : s'.Idle w := by
  rw [Idle, hsame]
  exact hidle

section

variable [Rate.Meter α τ] [LE τ]

theorem Turned.admits {s s' : State σ α τ} {v w : Nat} (hrests : s.RestsAtGate)
    (hturned : Turned s v s') (hcalledOff : s.calledOff = true) (hnot : ¬ s.Connects w)
    (hconnects : s'.Connects w) : w = v ∧ s.Admits w := by
  rcases hturned.calls hrests with hsame | ⟨c, hgate, hadded, hthrough⟩
  · exact absurd (hconnects.of_calls hsame) hnot
  · obtain ⟨time, hmem⟩ := hconnects
    rw [hadded, List.mem_cons] at hmem
    rcases hmem with hnew | hearlier
    · simp only [Prod.mk.injEq] at hnew
      obtain ⟨rfl, hconnect, -⟩ := hnew
      have hphase := phase_of_nextCall_connect hgate hconnect.symm
      refine ⟨rfl, ?_⟩
      rcases hthrough with ⟨hduty, hfree⟩ | ⟨due, hduty, hdue⟩
      · exact .free hduty hphase (hfree hcalledOff)
      · exact .matured hduty hphase hdue
    · exact absurd ⟨time, hearlier⟩ hnot

theorem Turned.connects {s s' : State σ α τ} {v w : Nat} (hrests : s.RestsAtGate)
    (hturned : Turned s v s') (hconnects : s.Connects w) : s'.Connects w := by
  obtain ⟨time, hmem⟩ := hconnects
  refine ⟨time, ?_⟩
  rcases hturned.calls hrests with hsame | ⟨c, -, hadded, -⟩
  · rw [hsame]
    exact hmem
  · rw [hadded]
    exact List.mem_cons_of_mem _ hmem

theorem Turned.idle {s s' : State σ α τ} {v w : Nat} (hturned : Turned s v s')
    (hcalledOff : s.calledOff = true) (hidle : s.Idle w) : s'.Idle w := by
  by_cases hw : w = v
  · subst hw
    cases hturned with
    | skipped hduty _ =>
        refine ⟨.ended, ?_, rfl⟩
        rw [duty_assign (lt_length_of_duty hduty), if_pos rfl]
    | begun _ hopen _ _ =>
        rw [hcalledOff] at hopen
        cases hopen
    | passed hduty _ _ _ | reserved hduty _ _ _ | refused hduty _ _ _ | matured hduty _
    | unanswered hduty _ _ | answered hduty _ _ | sent hduty _ => cases hidle.duty hduty
  · rcases hturned.others hw with hsame | ⟨c, hqueued, -⟩
    · exact hidle.of_same hsame
    · cases hidle.duty hqueued

end

/-!
## Any course
-/

variable [Rate.Meter α τ] [LE τ] [DecidableLE τ]

theorem connects_of_reaches {s last : State σ α τ} {w : Nat} (hrests : s.RestsAtGate)
    (hconnects : s.Connects w) (hreaches : s.Reaches setting last) : last.Connects w := by
  induction hreaches with
  | here => exact hconnects
  | move hbefore hstep ih =>
      rcases cases_at_gate hstep with ⟨-, time, -, rfl⟩ | ⟨-, halike⟩ | ⟨v, -, hturned⟩ |
        ⟨-, v, c, due, -, -, rfl⟩
      · exact ih
      · exact ih.of_calls halike.calls.symm
      · exact hturned.connects (restsAtGate_of_reaches hrests hbefore) ih
      · exact ih.of_calls (calls_resume _ _ _ _).symm

theorem admits_of_step {s s' : State σ α τ} {m : Move τ} {w : Nat} (hrests : s.RestsAtGate)
    (hcalledOff : s.calledOff = true) (hnot : ¬ s.Connects w) (hstep : s.step setting m = some s')
    (hconnects : s'.Connects w) : m = .work w ∧ s.Admits w := by
  rcases cases_at_gate hstep with ⟨-, time, -, rfl⟩ | ⟨-, halike⟩ | ⟨v, rfl, hturned⟩ |
    ⟨-, v, c, due, -, -, rfl⟩
  · exact absurd hconnects hnot
  · exact absurd (hconnects.of_calls halike.calls) hnot
  · obtain ⟨rfl, hadmits⟩ := hturned.admits hrests hcalledOff hnot hconnects
    exact ⟨rfl, hadmits⟩
  · exact absurd (hconnects.of_calls (calls_resume _ _ _ _)) hnot

theorem connects_of_admits {s s' : State σ α τ} {w : Nat} (hadmits : s.Admits w)
    (hstep : s.step setting (.work w) = some s') : s'.Connects w := by
  have hpass : ∀ (t : State σ α τ) {c : Collector}, c.phase = .entering →
      (t.pass w c).Connects w := by
    intro t c hphase
    refine ⟨t.now, ?_⟩
    rw [calls_pass, nextCall, hphase]
    exact List.mem_cons_self
  have hwork : s.work setting w = some s' := hstep
  cases hadmits with
  | @free c hduty hphase htoken =>
      have hrequest : c.request = .gate := by rw [Collector.request, hphase]
      simp only [work, hduty, act, hrequest, Option.some.injEq] at hwork
      have hgated := gated_atGate s w c
      rw [hwork] at hgated
      cases hgated with
      | free _ => exact hpass _ hphase
      | refused hempty _ | paid hempty _ _ | owed hempty _ _ =>
          rw [hempty] at htoken
          cases htoken
  | matured hduty hphase hdue =>
      simp only [work, hduty, hdue, if_true, Option.some.injEq] at hwork
      rw [← hwork]
      exact hpass s hphase

theorem idle_of_step {s s' : State σ α τ} {m : Move τ} {w : Nat}
    (hcalledOff : s.calledOff = true) (hidle : s.Idle w) (hstep : s.step setting m = some s') :
    s'.Idle w := by
  rcases cases_at_gate hstep with ⟨-, time, -, rfl⟩ | ⟨-, halike⟩ | ⟨v, -, hturned⟩ |
    ⟨-, v, c, due, hduty, -, rfl⟩
  · exact hidle
  · refine hidle.of_same ?_
    rw [halike.workers]
  · exact hturned.idle hcalledOff hidle
  · by_cases hw : w = v
    · subst hw
      cases hidle.duty hduty
    · exact hidle.of_same (duty_resume_of_ne hduty rfl hw)

theorem not_connects_of_idle {s last : State σ α τ} {w : Nat} (hrests : s.RestsAtGate)
    (hcalledOff : s.calledOff = true) (hnot : ¬ s.Connects w) (hidle : s.Idle w)
    (hreaches : s.Reaches setting last) : ¬ last.Connects w := by
  have hboth : last.Idle w ∧ ¬ last.Connects w := by
    induction hreaches with
    | here => exact ⟨hidle, hnot⟩
    | @move a b m hbefore hstep ih =>
        have hstopped := calledOff_of_reaches hcalledOff hbefore
        refine ⟨idle_of_step hstopped ih.1 hstep, ?_⟩
        intro hconnects
        obtain ⟨-, hadmits⟩ := admits_of_step (restsAtGate_of_reaches hrests hbefore) hstopped
          ih.2 hstep hconnects
        cases hadmits with
        | free hduty _ _ | matured hduty _ _ => cases ih.1.duty hduty
  exact hboth.2

theorem admits_of_connects {s last : State σ α τ} {w : Nat} (hrests : s.RestsAtGate)
    (hcalledOff : s.calledOff = true) (hnot : ¬ s.Connects w) (hreaches : s.Reaches setting last)
    (hconnects : last.Connects w) :
    ∃ a b, s.Reaches setting a ∧ a.Admits w ∧ a.step setting (.work w) = some b ∧
      b.Reaches setting last := by
  induction hreaches with
  | here => exact absurd hconnects hnot
  | @move a b m hbefore hstep ih =>
      by_cases hearlier : a.Connects w
      · obtain ⟨a', b', ha', hadmits, hmove, hb'⟩ := ih hearlier
        exact ⟨a', b', ha', hadmits, hmove, hb'.move hstep⟩
      · obtain ⟨rfl, hadmits⟩ := admits_of_step (restsAtGate_of_reaches hrests hbefore)
          (calledOff_of_reaches hcalledOff hbefore) hearlier hstep hconnects
        exact ⟨a, b, hbefore, hadmits, hstep, .here⟩

end State
end Run

namespace Fleet

open Run State

variable {σ : Type} {setting : Setting σ}

/--
Once a run was called off, a worker that has not called its host connects just in case
the gate lets it through on the way; a worker that has not begun does not connect.
-/
theorem connects_iff_admitted {stages : List Protocol.Stage} {endings : List String}
    {f : Fleet σ} {folder : Path} {s last : State σ Float Rate.Millis} {w : Nat}
    (hfetching : f.Fetching setting stages endings folder s) (hcalledOff : s.calledOff = true)
    (hnot : ¬ s.Connects w) (hreaches : s.Reaches setting last) :
    (last.Connects w ↔ ∃ a b, s.Reaches setting a ∧ a.Admits w ∧
      a.step setting (.work w) = some b ∧ b.Reaches setting last) ∧
      (s.Idle w → ¬ last.Connects w) := by
  have hrests : s.RestsAtGate :=
    restsAtGate_of_reaches (restsAtGate_start _ _ _ _ _ _ _) hfetching.reached
  refine ⟨⟨?_, ?_⟩, ?_⟩
  · exact admits_of_connects hrests hcalledOff hnot hreaches
  · rintro ⟨a, b, hbefore, hadmits, hstep, hafter⟩
    refine connects_of_reaches ?_ (connects_of_admits hadmits hstep) hafter
    exact restsAtGate_of_reaches hrests (hbefore.move hstep)
  · intro hidle
    exact not_connects_of_idle hrests hcalledOff hnot hidle hreaches

/-!
## One permit for two members

The second member's worker waits for the permit when the run is called off.  The
first one ends, the second one gets the permit, finds a token, and connects.
-/

def single : Fleet Account :=
  let c := FleetConfig.new "demo" "/logs" "/fleetlog.yaml"
  let config := { c with
    limits := ⟨150, 10, some 1⟩
    status := (c.status.addInstance "g" ⟨"a", "10.0.0.1", ""⟩).addInstance "g"
      ⟨"b", "10.0.0.2", ""⟩ }
  ⟨⟨config, .empty, []⟩, .zero, false⟩

def prompt : Setting Account where
  connector := Script.canned.connector
  verbose := false
  suffix _ _ := ""
  flaw _ _ := none

def singleStart : State Account Float Rate.Millis :=
  (single.prepared ["x"]).startRun [] "/logs/demo-logsx"

def singleMoments : Option (State Account Float Rate.Millis × State Account Float Rate.Millis) :=
  (singleStart.steps prompt [.work 0, .work 1, .callOff]).bind fun stopped =>
    (stopped.steps prompt [.work 0, .work 0, .work 0, .work 0, .work 1]).bind fun last =>
      some (stopped, last)

theorem singleMoments_facts :
    (singleMoments.map fun (stopped, last) =>
      (stopped.calledOff, stopped.queue, stopped.calls.isEmpty,
        last.calls.contains (1, .connect, 0))) =
      some (true, [1], true, true) := by
  decide +kernel

theorem exists_singleMoments :
    ∃ stopped last, single.Fetching prompt [] ["x"] "/logs/demo-logsx" stopped ∧
      stopped.calledOff = true ∧ stopped.queue = [1] ∧ ¬ stopped.Connects 1 ∧
      stopped.Reaches prompt last ∧ last.Connects 1 := by
  obtain ⟨⟨stopped, last⟩, hmoments, hfacts⟩ := Option.map_eq_some_iff.1 singleMoments_facts
  obtain ⟨a, ha, hmoments⟩ := Option.bind_eq_some_iff.1 hmoments
  obtain ⟨b, hb, hmoments⟩ := Option.bind_eq_some_iff.1 hmoments
  cases hmoments
  simp only [Prod.mk.injEq, List.isEmpty_iff, List.contains_iff_mem] at hfacts
  obtain ⟨hcalledOff, hqueue, hsilent, hconnects⟩ := hfacts
  refine ⟨stopped, last, ⟨by decide +kernel, reaches_of_steps ha⟩, hcalledOff, hqueue, ?_,
    reaches_of_steps hb, 0, hconnects⟩
  rintro ⟨time, hmem⟩
  rw [hsilent] at hmem
  cases hmem

theorem connects_iff_admitted_single :
    ∃ stopped, single.Fetching prompt [] ["x"] "/logs/demo-logsx" stopped ∧
      stopped.calledOff = true ∧ ∃ a, stopped.Reaches prompt a ∧ a.Admits 1 := by
  obtain ⟨stopped, last, hfetching, hcalledOff, -, hnot, hreaches, hconnects⟩ :=
    exists_singleMoments
  obtain ⟨a, -, ha, hadmits, -⟩ :=
    (connects_iff_admitted hfetching hcalledOff hnot hreaches).1.1 hconnects
  exact ⟨stopped, hfetching, hcalledOff, a, ha, hadmits⟩

/-- A worker that waited for a permit when the run was called off connects. -/
theorem single_connects_calledOff :
    ∃ stopped last w, single.Fetching prompt [] ["x"] "/logs/demo-logsx" stopped ∧
      stopped.calledOff = true ∧ w ∈ stopped.queue ∧ ¬ stopped.Connects w ∧
      stopped.Reaches prompt last ∧ last.Connects w := by
  obtain ⟨stopped, last, hfetching, hcalledOff, hqueue, hnot, hreaches, hconnects⟩ :=
    exists_singleMoments
  refine ⟨stopped, last, 1, hfetching, hcalledOff, ?_, hnot, hreaches, hconnects⟩
  rw [hqueue]
  exact List.mem_singleton_self 1

end Fleet
end LogHarvest
