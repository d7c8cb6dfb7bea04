import LogHarvest.Proofs.Run.Carried

/-!
# The order that the program takes is a course

`State.drive` and `Site.drive` make only moves that are possible.  So what they end in
is what some course leads to, and what holds of every course holds of the program.

A run that shares its fleet takes several moves at a time.  They make up a course of
the site as long as the receiver returns with the last of them, if at all
(`ReturnsLast`), because until then the configuration is the run's.
-/

namespace LogHarvest

theorem exhaust_induction {σ : Type} {effort : σ → Effort} {step : σ → Option σ} {P : σ → Prop}
    (hstep : ∀ a b, P a → step a = some b → P b) {s : σ} (hs : P s) :
    P (exhaust effort step s) := by
  induction s using exhaust.induct effort step with
  | case1 s hnone =>
      rw [exhaust, hnone]
      exact hs
  | case2 s s' hsome hless ih =>
      rw [exhaust, hsome]
      simp only [hless, if_true]
      exact ih (hstep s s' hs hsome)
  | case3 s s' hsome hless =>
      rw [exhaust, hsome]
      simp only [hless, if_false]
      exact hs

namespace Run
namespace State

variable {σ α τ : Type} [Rate.Meter α τ] [LE τ] [DecidableLE τ] {setting : Setting σ}

/-!
## One run
-/

theorem turn_induction {P : State σ α τ → Prop} {s : State σ α τ} {w : Nat}
    (hwork : ∀ a b, P a → a.work setting w = some b → P b)
    (hgiveUp : ∀ a b, P a → a.giveUp w = some b → P b) (hs : P s) : P (s.turn setting w) := by
  unfold turn
  refine exhaust_induction ?_ ?_
  · intro a b ha hstep
    split at hstep
    · cases hstep
    · unfold nextMove at hstep
      cases hcase : a.giveUp w with
      | some t =>
          rw [hcase] at hstep
          exact hgiveUp a b ha (hcase.trans hstep)
      | none =>
          rw [hcase] at hstep
          exact hwork a b ha hstep
  · split
    · cases hcase : s.work setting w with
      | none => exact hs
      | some t => exact hwork s t hs hcase
    · exact hs

theorem turns_induction {P : State σ α τ → Prop} {s : State σ α τ}
    (hwork : ∀ a b w, P a → a.work setting w = some b → P b)
    (hgiveUp : ∀ a b w, P a → a.giveUp w = some b → P b) (hs : P s) (workers : List Nat) :
    P (workers.foldl (fun s w => s.turn setting w) s) := by
  induction workers generalizing s with
  | nil => exact hs
  | cons w rest ih =>
      exact ih (turn_induction (fun a b => hwork a b w) (fun a b => hgiveUp a b w) hs)

inductive ReturnsLast (setting : Setting σ) (s : State σ α τ) : State σ α τ → Prop
  | here : ReturnsLast setting s s
  | move {a b : State σ α τ} {m : Move τ} :
      ReturnsLast setting s a → a.receiver.result?.isSome = s.receiver.result?.isSome →
        a.step setting m = some b → ReturnsLast setting s b

theorem ReturnsLast.reaches {s t : State σ α τ} (hcourse : s.ReturnsLast setting t) :
    s.Reaches setting t := by
  induction hcourse with
  | here => exact .here
  | move _ _ hstep ih => exact ih.move hstep

theorem returnsLast_of_step {s t : State σ α τ} {m : Move τ} (hstep : s.step setting m = some t) :
    s.ReturnsLast setting t :=
  ReturnsLast.here.move rfl hstep

theorem ReturnsLast.after_stopAll {s t : State σ α τ}
    (hcourse : s.stopAll.ReturnsLast setting t) : s.ReturnsLast setting t := by
  have hsame : s.stopAll.receiver = s.receiver := (beside_stopAll s).receiver
  induction hcourse with
  | here => exact returnsLast_of_step (m := .callOff) rfl
  | move _ hreceiver hstep ih => exact ih.move (hreceiver.trans (by rw [hsame])) hstep

theorem returnsLast_round (s : State σ α τ) : s.ReturnsLast setting (s.round setting) := by
  have hturns : ∀ workers : List Nat,
      s.ReturnsLast setting (workers.foldl (fun s w => s.turn setting w) s) ∧
        (workers.foldl (fun s w => s.turn setting w) s).receiver = s.receiver := by
    -- A worker's move leaves the receiver where it is.
    intro workers
    refine turns_induction (P := fun a => s.ReturnsLast setting a ∧ a.receiver = s.receiver)
      ?_ ?_ ⟨.here, rfl⟩ workers
    · rintro a b w ⟨ha, hreceiver⟩ hwork
      have hstep : a.step setting (.work w) = some b := hwork
      exact ⟨ha.move (by rw [hreceiver]) hstep,
        (worked_of_work hwork).sameBooks.receiver.trans hreceiver⟩
    · rintro a b w ⟨ha, hreceiver⟩ hgiveUp
      have hstep : a.step setting (.giveUp w) = some b := hgiveUp
      have hworked : Worked setting a w b := worked_of_giveUp hgiveUp
      exact ⟨ha.move (by rw [hreceiver]) hstep, hworked.sameBooks.receiver.trans hreceiver⟩
  unfold round
  obtain ⟨hafter, hsame⟩ := hturns (List.range s.workers.length)
  refine (exhaust_induction (P := fun a => s.ReturnsLast setting a ∧
    (s.receiver.result?.isSome = true → a.receiver.result?.isSome = true)) ?_ ⟨hafter, ?_⟩).1
  · rintro a b ⟨ha, hclosed⟩ hreceive
    -- The receiver has not returned when it does something.
    have hopen : a.receiver.result?.isSome = false := by
      cases hreceiver : a.receiver with
      | returned result =>
          rw [receive, hreceiver] at hreceive
          cases hreceive
      | _ => rfl
    have hbefore : s.receiver.result?.isSome = false := by
      cases hcase : s.receiver.result?.isSome with
      | false => rfl
      | true =>
          rw [hclosed hcase] at hopen
          cases hopen
    have hstep : a.step setting .receive = some b := hreceive
    refine ⟨ha.move (hopen.trans hbefore.symm) hstep, ?_⟩
    intro hcase
    rw [hcase] at hbefore
    cases hbefore
  · rw [hsame]
    exact id

theorem reaches_idle {interrupts : State σ α τ → Bool} {s s' : State σ α τ}
    (hidle : s.idle interrupts = some s') : s.Reaches setting s' := by
  unfold idle at hidle
  split at hidle
  · have hstep : s.step setting .callOff = some s' := hidle
    exact reaches_of_step hstep
  · obtain ⟨due, -, htick⟩ := Option.bind_eq_some_iff.1 hidle
    have hstep : s.step setting (.tick due) = some s' := htick
    exact reaches_of_step hstep

theorem reaches_drive (interrupts : State σ α τ → Bool) (s : State σ α τ) :
    s.Reaches setting (s.drive setting interrupts) := by
  unfold drive
  refine exhaust_induction ?_ .here
  intro a b ha hstep
  dsimp only at hstep
  split at hstep
  · cases hstep
    exact ha.trans (returnsLast_round a).reaches
  · exact ha.trans (reaches_idle hstep)

end State
end Run

namespace Fleet

theorem store_prepare (store : FleetStore) (endings : List String) :
    (prepare store endings).2 = { store with tree := (prepare store endings).2.tree } := by
  unfold prepare
  dsimp only
  split
  · rfl
  · split
    · rfl
    · split
      · rfl
      · split <;> rfl

theorem allocated_of_prepare {store store' : FleetStore} {endings : List String} {folder : Path}
    (hprepare : prepare store endings = (.ok folder, store')) :
    ∃ tree, Artifact.allocateFolder tree store.config.logDir (folderStart store.config) endings =
      .ok (folder, store'.tree) := by
  obtain ⟨-, -, -, t, tree, -, hallocate, rfl⟩ := prepare_eq_ok_iff.1 hprepare
  exact ⟨t, hallocate⟩

end Fleet

/-!
## Runs that share a fleet
-/

namespace Site

open Run

variable {σ : Type} {site : Site σ} {k : Nat} {begun : Begun σ}

theorem amid_put (site : Site σ) (k : Nat) (begun : Begun σ) (s : State σ Float Rate.Millis) :
    s.amid (site.put k begun s).fleet = s := by
  unfold put State.amid
  dsimp only
  split <;> rfl

theorem put_put {a b : State σ Float Rate.Millis}
    (hsame : a.receiver.result?.isSome = begun.state.receiver.result?.isSome)
    (hcalledOff : a.calledOff = true → b.calledOff = true) :
    (site.put k begun a).put k ⟨begun.setting, a⟩ b = site.put k begun b := by
  have hcalledOff : (site.fleet.calledOff || a.calledOff || b.calledOff) =
      (site.fleet.calledOff || b.calledOff) := by
    cases hcase : a.calledOff with
    | false => rw [Bool.or_false]
    | true => rw [hcalledOff hcase, Bool.or_true, Bool.or_true]
  unfold put
  dsimp only
  rw [hcalledOff, List.set_set]
  cases hcase : begun.state.receiver.result? with
  | none =>
      rw [hcase, Option.isSome_none, Option.isSome_eq_false_iff, Option.isNone_iff_eq_none] at hsame
      rw [hsame]
  | some result =>
      rw [hcase] at hsame
      obtain ⟨result', hresult⟩ := Option.isSome_iff_exists.1 hsame
      rw [hresult]

theorem reaches_put (hbegun : site.runs[k]? = some begun) {s : State σ Float Rate.Millis}
    (hcourse : (begun.state.amid site.fleet).ReturnsLast begun.setting s) :
    site.Reaches (site.put k begun s) := by
  induction hcourse with
  | here =>
      -- The run sees what the others have left: a move of its clock that takes no time.
      refine reaches_of_step (m := .run k (.tick begun.state.now)) ?_
      have htick : (begun.state.amid site.fleet).step begun.setting (.tick begun.state.now) =
          some (begun.state.amid site.fleet) := if_pos (Nat.le_refl _)
      rw [step, hbegun, Option.bind_some, htick]
      rfl
  | @move a b m _ hsame hstep ih =>
      have hk : k < site.runs.length := (List.getElem?_eq_some_iff.1 hbegun).1
      refine ih.move (m := .run k m) ?_
      have hput : (site.put k begun a).runs[k]? = some ⟨begun.setting, a⟩ :=
        List.getElem?_set_self hk
      rw [step, hput, Option.bind_some, amid_put, hstep, Option.map_some,
        put_put hsame (State.calledOff_of_step hstep)]

theorem reaches_visit
    {go : Setting σ → State σ Float Rate.Millis → State σ Float Rate.Millis}
    (hgo : ∀ (setting : Setting σ) (s : State σ Float Rate.Millis),
      s.ReturnsLast setting (go setting s)) :
    site.Reaches (site.visit k go) := by
  unfold visit
  split
  · exact .here
  · rename_i hbegun
    exact reaches_put hbegun (hgo _ _)

theorem reaches_foldl {visit : Site σ → Nat → Site σ}
    (hvisit : ∀ (site : Site σ) k, site.Reaches (visit site k)) (site : Site σ) (runs : List Nat) :
    site.Reaches (runs.foldl visit site) := by
  induction runs generalizing site with
  | nil => exact .here
  | cons k rest ih => exact (hvisit site k).trans (ih (visit site k))

theorem returnsLast_turn (setting : Setting σ) (s : State σ Float Rate.Millis) (calledOff : Bool) :
    s.ReturnsLast setting ((if calledOff then s.stopAll else s).round setting) := by
  split
  · exact (State.returnsLast_round s.stopAll).after_stopAll
  · exact State.returnsLast_round s

theorem reaches_round (site : Site σ) : site.Reaches site.round :=
  reaches_foldl (fun site _ => reaches_visit fun setting s =>
    returnsLast_turn setting s site.fleet.calledOff) site _

theorem reaches_others (site : Site σ) (fleet : Fleet σ)
    (hconfig : fleet.store.config = site.fleet.store.config) :
    site.Reaches { site with fleet := fleet } := by
  refine reaches_of_step (m := .others fleet) ?_
  rw [step, ← hconfig]
  dsimp only
  rw [ite_self]

theorem reaches_stopAll (site : Site σ) : site.Reaches site.stopAll :=
  (reaches_others site { site.fleet with calledOff := true } rfl).trans
    (reaches_foldl
      (fun _ _ => reaches_visit fun _ _ => State.returnsLast_of_step (m := .callOff) rfl)
      _ _)

theorem reaches_wait (site : Site σ) (delay : Rate.Millis) : site.Reaches (site.wait delay) := by
  refine reaches_foldl (fun _ _ => reaches_visit fun _ s => ?_) site _
  exact State.returnsLast_of_step (m := .tick (s.now + delay)) (if_pos (Nat.le_add_right _ _))

theorem reaches_idle {interrupts : State σ Float Rate.Millis → Bool} {site' : Site σ}
    (hidle : site.idle interrupts = some site') : site.Reaches site' := by
  unfold idle at hidle
  dsimp only at hidle
  split at hidle
  · cases hidle
    exact reaches_stopAll site
  · obtain ⟨delay, -, rfl⟩ := Option.map_eq_some_iff.1 hidle
    exact reaches_wait site delay

theorem drive_induction {P : Site σ → Prop} {interrupts : State σ Float Rate.Millis → Bool}
    (hround : ∀ a, P a → a.isFree = false → P a.round)
    (hidle : ∀ a b, P a → a.isFree = false → a.idle interrupts = some b → P b) (hsite : P site) :
    P (site.drive interrupts) := by
  unfold drive
  refine exhaust_induction ?_ hsite
  intro a b ha hstep
  split at hstep
  · cases hstep
  · rename_i hfree
    rw [Bool.not_eq_true] at hfree
    dsimp only at hstep
    split at hstep
    · cases hstep
      exact hround a ha hfree
    · exact hidle a b ha hfree hstep

theorem reaches_drive (interrupts : State σ Float Rate.Millis → Bool) (site : Site σ) :
    site.Reaches (site.drive interrupts) :=
  drive_induction (fun a ha _ => ha.trans (reaches_round a))
    (fun _ _ ha _ hidle => ha.trans (reaches_idle hidle)) .here

/-- The program's fetch is a course of the site, whatever runs were begun before. -/
theorem reaches_fetch (setting : Setting σ) (stages : List Protocol.Stage) (endings : List String)
    (interrupts : State σ Float Rate.Millis → Bool) (site : Site σ) :
    site.Reaches (site.fetch setting stages endings interrupts).2 := by
  unfold fetch
  split
  · exact .here
  · rename_i hfree
    split
    · rename_i fault store hprepare
      have hstore := Fleet.store_prepare site.fleet.store endings
      rw [hprepare] at hstore
      refine reaches_others site _ ?_
      rw [show store = _ from hstore]
    · rename_i folder store hprepare
      obtain ⟨tree, hallocate⟩ := Fleet.allocated_of_prepare hprepare
      have hfiles : site.Reaches { site with
          fleet := { site.fleet with store := { site.fleet.store with tree := tree } } } :=
        reaches_others site _ rfl
      refine hfiles.trans (.trans ?_ (reaches_drive interrupts _))
      refine reaches_of_step (m := .begin setting stages endings) ?_
      refine (if_neg hfree).trans ?_
      dsimp only
      rw [hallocate]
      rfl

/-!
## One fetch alone
-/

structure Alone (setting : Setting σ) (first : State σ Float Rate.Millis) (site : Site σ)
    (s : State σ Float Rate.Millis) : Prop where
  runs : site.runs = [⟨setting, s⟩]
  fleet : site.fleet = Fleet.afterRun s
  reached : first.Reaches setting s

theorem Alone.visit {setting : Setting σ} {first s : State σ Float Rate.Millis} {calledOff : Bool}
    {go : Setting σ → State σ Float Rate.Millis → State σ Float Rate.Millis}
    (hruns : site.runs = [⟨setting, s⟩])
    (hfleet : site.fleet = { Fleet.afterRun s with calledOff := calledOff })
    (hreached : first.Reaches setting s) (hopen : s.receiver.result? = none)
    (hgo : s.Reaches setting (go setting s))
    (hcalledOff : calledOff = true → (go setting s).calledOff = true) :
    Alone setting first (site.visit 0 go) (go setting s) := by
  have hamid : s.amid site.fleet = s := by
    rw [hfleet]
    rfl
  have hvisit : site.visit 0 go = site.put 0 ⟨setting, s⟩ (go setting s) := by
    rw [Site.visit, hruns]
    dsimp only [List.getElem?_cons_zero]
    rw [hamid]
  have hboth : (calledOff || (go setting s).calledOff) = (go setting s).calledOff := by
    cases calledOff with
    | false => rfl
    | true => rw [hcalledOff rfl, Bool.or_true]
  rw [hvisit]
  refine ⟨?_, ?_, hreached.trans hgo⟩
  · rw [put, hruns]
    rfl
  · rw [put, hfleet]
    dsimp only
    rw [hopen, hboth]
    rfl

theorem foldl_of_runs {begun : Begun σ} (hruns : site.runs = [begun])
    (visit : Site σ → Nat → Site σ) (first : Site σ) :
    (List.range site.runs.length).foldl visit first = visit first 0 := by
  rw [hruns]
  rfl

theorem Alone.open_of_not_free {setting : Setting σ} {first s : State σ Float Rate.Millis}
    (halone : Alone setting first site s) (hfree : site.isFree = false) :
    s.receiver.result? = none := by
  rw [isFree, halone.runs, List.all_cons, List.all_nil, Bool.and_true] at hfree
  exact Option.isNone_iff_eq_none.1 (Option.isSome_eq_false_iff.1 hfree)

theorem Alone.drive {setting : Setting σ} {first s : State σ Float Rate.Millis}
    (halone : Alone setting first site s) (interrupts : State σ Float Rate.Millis → Bool) :
    ∃ last, Alone setting first (site.drive interrupts) last := by
  refine drive_induction (P := fun site => ∃ s, Alone setting first site s) ?_ ?_ ⟨s, halone⟩
  · rintro a ⟨s, halone⟩ hfree
    have hopen := halone.open_of_not_free hfree
    have hround := (returnsLast_turn setting s a.fleet.calledOff).reaches
    rw [round, foldl_of_runs halone.runs, turn]
    refine ⟨_, Alone.visit halone.runs halone.fleet halone.reached hopen hround ?_⟩
    intro hcalledOff
    exact State.calledOff_of_reaches hcalledOff hround
  · rintro a b ⟨s, halone⟩ hfree hidle
    have hopen := halone.open_of_not_free hfree
    unfold idle at hidle
    dsimp only at hidle
    split at hidle
    · cases hidle
      rw [stopAll, foldl_of_runs halone.runs]
      have hfleet : { a.fleet with calledOff := true } =
          { Fleet.afterRun s with calledOff := true } := by
        rw [halone.fleet]
      have hruns : Site.runs { a with fleet := { a.fleet with calledOff := true } } =
          [⟨setting, s⟩] := halone.runs
      refine ⟨_, Alone.visit hruns hfleet halone.reached hopen
        (State.reaches_of_step (m := .callOff) rfl) ?_⟩
      intro _
      exact State.calledOff_stopAll s
    · obtain ⟨delay, -, rfl⟩ := Option.map_eq_some_iff.1 hidle
      rw [wait, foldl_of_runs halone.runs]
      refine ⟨_, Alone.visit halone.runs halone.fleet halone.reached hopen
        (State.reaches_of_step (m := .tick (s.now + delay)) (if_pos (Nat.le_add_right _ _))) id⟩

end Site

namespace Fleet

variable {σ : Type}

/-- What a fetch of the program ends in: a fault of the preparation, or a state of its run. -/
theorem cases_of_fetch (setting : Run.Setting σ) (stages : List Protocol.Stage)
    (endings : List String) (interrupts : Run.State σ Float Rate.Millis → Bool) (f : Fleet σ) :
    (∃ fault, (prepare f.store endings).1 = .error fault ∧
      f.fetch setting stages endings interrupts =
        (some (.error fault), { f with store := (prepare f.store endings).2 })) ∨
      ∃ folder last, f.Fetching setting stages endings folder last ∧
        (f.fetch setting stages endings interrupts).2 = afterRun last := by
  unfold fetch Site.fetch
  rw [if_neg (show ¬(!(Site.ofFleet f).isFree) = true from Bool.false_ne_true)]
  dsimp only [Site.ofFleet]
  cases hprepare : prepare f.store endings with
  | mk result store =>
      cases result with
      | error fault => exact Or.inl ⟨fault, rfl, rfl⟩
      | ok folder =>
          have hstore : store = { f.store with tree := store.tree } := by
            have hstore := store_prepare f.store endings
            rw [hprepare] at hstore
            exact hstore
          have hfirst : Site.Alone setting ((f.prepared endings).startRun stages folder)
              (Site.begin ⟨f, []⟩ setting stages folder store.tree)
              ((f.prepared endings).startRun stages folder) := by
            rw [prepared, hprepare, hstore]
            exact ⟨rfl, rfl, .here⟩
          obtain ⟨last, halone⟩ := hfirst.drive interrupts
          exact Or.inr ⟨folder, last, ⟨by rw [hprepare], halone.reached⟩, halone.fleet⟩

end Fleet
end LogHarvest
