import LogHarvest.Proofs.Run.Artifacts
import LogHarvest.Proofs.Run.Driving
import LogHarvest.Proofs.Run.Settling

/-!
# Runs that share a fleet

One run at a time has the status to itself, and it is the one that began last.  A run
that ends well without having been called off leaves nobody behind: when its receiver
returns, every worker has ended, and nothing that happens later is its doing.

A run that was called off, or whose record was refused, may leave workers behind.
They still open sessions, run commands and write files, whatever the runs do that
begin after it.
-/

namespace LogHarvest
namespace Run
namespace State

variable {σ α τ : Type}

/--
The run says that it was called off, or a record was refused, or the run was called off
and its last document could not be written.
-/
def BrokenOff (s : State σ α τ) : Prop :=
  match s.receiver.result? with
  | some (.ok outcome) => outcome.calledOff = true
  | some (.error fault) => fault.isRefusal = true ∨ s.calledOff = true
  | none => False

/-!
## One of the runs
-/

structure InOrder (n : Nat) (s : State σ α τ) : Prop where
  delivery : Delivery s
  balance : Balance s
  settling : Settling n s

theorem inOrder_start (store : FleetStore) (stages : List Protocol.Stage) (folder : Path)
    (bucket : Rate.Bucket α τ) (now : τ) (calledOff : Bool) (remote : σ) :
    InOrder store.config.status.roster.length
      (start store stages folder bucket now calledOff remote) :=
  ⟨delivery_start _ _ _ _ _ _ _, balance_start _ _ _ _ _ _ _, settling_start _ _ _ _ _ _ _⟩

theorem InOrder.amid {n : Nat} {s : State σ α τ} (hinOrder : InOrder n s) (f : Fleet σ) :
    InOrder n (s.amid f) where
  delivery := hinOrder.delivery.of_beside (beside_withTree s f.remote f.store.tree)
  balance := hinOrder.balance.of_aside (aside_withTree s f.remote f.store.tree)
  settling := hinOrder.settling.of_beside (beside_withTree s f.remote f.store.tree)

/-- Who returned without having been broken off has left nobody behind. -/
theorem InOrder.quiet {n : Nat} {s : State σ α τ} (hinOrder : InOrder n s)
    (hreturned : s.receiver.result?.isSome = true) (hnot : ¬ s.BrokenOff) : s.Quiet := by
  obtain ⟨result, hresult⟩ := Option.isSome_iff_exists.1 hreturned
  have hreceiver := Receiver.eq_returned_of_result? hresult
  rw [BrokenOff, hresult] at hnot
  cases result with
  | ok outcome =>
      obtain ⟨tally, calledOff⟩ := outcome
      obtain rfl : calledOff = false := Bool.eq_false_iff.2 hnot
      exact (hinOrder.settling.returned tally hreceiver).2
  | error fault =>
      obtain ⟨hrefusal, hcalledOff⟩ := not_or.1 hnot
      exact hinOrder.settling.failed fault hreceiver (Bool.eq_false_iff.2 hrefusal)
        (Bool.eq_false_iff.2 hcalledOff)

section Moves

variable [Rate.Meter α τ] [LE τ] [DecidableLE τ] {setting : Setting σ} {s s' : State σ α τ}
  {m : Move τ}

theorem InOrder.of_step {n : Nat} (hinOrder : InOrder n s) (hstep : s.step setting m = some s') :
    InOrder n s' where
  delivery := hinOrder.delivery.of_step hstep
  balance := hinOrder.balance.of_reaches (reaches_of_step hstep)
  settling := hinOrder.settling.of_step hinOrder.delivery hinOrder.balance hstep

theorem returned_of_step (hreturned : s.receiver.result?.isSome = true)
    (hstep : s.step setting m = some s') : s'.receiver.result?.isSome = true := by
  obtain ⟨result, hresult⟩ := Option.isSome_iff_exists.1 hreturned
  have hreceiver := Receiver.eq_returned_of_result? hresult
  rw [(sameBooks_of_returned hreceiver (reaches_of_step hstep)).receiver]
  exact hreturned

theorem Quiet.of_step (hquiet : s.Quiet) (hreturned : s.receiver.result?.isSome = true)
    (hstep : s.step setting m = some s') :
    s'.Quiet ∧ s'.calls = s.calls ∧ s'.around = s.around := by
  cases m with
  | tick time =>
      simp only [step] at hstep
      split at hstep
      · cases hstep
        exact ⟨hquiet, rfl, rfl⟩
      · cases hstep
  | callOff =>
      cases hstep
      exact ⟨hquiet.of_workers (beside_stopAll s).workers, (alike_stopAll s).calls,
        around_stopAll s⟩
  | work w => exact (hquiet.not_worked (worked_of_work hstep)).elim
  | giveUp w =>
      have hworked : Worked setting s w s' := worked_of_giveUp hstep
      exact (hquiet.not_worked hworked).elim
  | receive =>
      obtain ⟨result, hresult⟩ := Option.isSome_iff_exists.1 hreturned
      have hreceive : s.receive = some s' := hstep
      rw [receive, Receiver.eq_returned_of_result? hresult] at hreceive
      cases hreceive

end Moves
end State
end Run

namespace Site

open Run State

variable {σ : Type} {site site' : Site σ}

/-!
## All runs
-/

theorem exists_of_step_run {k : Nat} {move : Run.Move Rate.Millis}
    (hstep : site.step (.run k move) = some site') :
    ∃ begun s, site.runs[k]? = some begun ∧
      (begun.state.amid site.fleet).step begun.setting move = some s ∧
      site' = site.put k begun s := by
  obtain ⟨begun, hbegun, hmap⟩ := Option.bind_eq_some_iff.1 hstep
  obtain ⟨s, hmove, hput⟩ := Option.map_eq_some_iff.1 hmap
  exact ⟨begun, s, hbegun, hmove, hput.symm⟩

theorem cases_of_step {m : Site.Move σ} (hstep : site.step m = some site') :
    (∃ setting stages folder tree, site.isFree = true ∧
      site' = site.begin setting stages folder tree) ∨
    (∃ k move begun s, site.runs[k]? = some begun ∧
      (begun.state.amid site.fleet).step begun.setting move = some s ∧
      site' = site.put k begun s) ∨
    site'.runs = site.runs := by
  cases m with
  | begin setting stages endings =>
      unfold step at hstep
      dsimp only at hstep
      split at hstep
      · cases hstep
      · rename_i hfree
        rw [Bool.not_eq_true, Bool.not_eq_false'] at hfree
        split at hstep
        · cases hstep
        · cases hstep
          exact Or.inl ⟨setting, stages, _, _, hfree, rfl⟩
  | run k move =>
      obtain ⟨begun, s, hbegun, hmove, hput⟩ := exists_of_step_run hstep
      exact Or.inr (Or.inl ⟨k, move, begun, s, hbegun, hmove, hput⟩)
  | others fleet =>
      cases hstep
      exact Or.inr (Or.inr rfl)

structure Serial (site : Site σ) : Prop where
  inOrder : ∀ (k : Nat) (begun : Begun σ), site.runs[k]? = some begun →
    ∃ n, InOrder n begun.state
  returned : ∀ (k : Nat) (begun : Begun σ), site.runs[k]? = some begun →
    k + 1 < site.runs.length → begun.state.receiver.result?.isSome = true

theorem serial_ofFleet (f : Fleet σ) : (ofFleet f).Serial where
  inOrder := by
    intro k begun hbegun
    rw [show (ofFleet f).runs[k]? = none from List.getElem?_nil] at hbegun
    cases hbegun
  returned := by
    intro k begun _ hlast
    exact absurd hlast (Nat.not_lt_zero _)

theorem returned_of_isFree {k : Nat} {begun : Begun σ} (hfree : site.isFree = true)
    (hbegun : site.runs[k]? = some begun) : begun.state.receiver.result?.isSome = true :=
  List.all_eq_true.1 hfree begun (List.mem_of_getElem? hbegun)

theorem cases_of_begin {setting : Setting σ} {stages : List Protocol.Stage} {folder : Path}
    {tree : Tree} {k : Nat} {begun : Begun σ}
    (hbegun : (site.begin setting stages folder tree).runs[k]? = some begun) :
    site.runs[k]? = some begun ∨
      k = site.runs.length ∧ ∃ f : Fleet σ, begun = ⟨setting, f.startRun stages folder⟩ := by
  unfold begin at hbegun
  rw [List.getElem?_append] at hbegun
  split at hbegun
  · exact Or.inl hbegun
  · rename_i hpast
    obtain ⟨hk, hlast⟩ := List.getElem?_eq_some_iff.1 hbegun
    rw [List.length_singleton] at hk
    obtain rfl : k = site.runs.length := by omega
    rw [List.getElem_singleton] at hlast
    exact Or.inr ⟨rfl, _, hlast.symm⟩

theorem cases_of_put {j k : Nat} {begun other : Begun σ} {s : State σ Float Rate.Millis}
    (hother : (site.put k begun s).runs[j]? = some other) :
    (j ≠ k ∧ site.runs[j]? = some other) ∨ j = k ∧ other = ⟨begun.setting, s⟩ := by
  unfold put at hother
  dsimp only at hother
  rw [List.getElem?_set] at hother
  split at hother
  · rename_i hj
    split at hother
    · cases hother
      exact Or.inr ⟨hj.symm, rfl⟩
    · cases hother
  · rename_i hj
    exact Or.inl ⟨fun h => hj h.symm, hother⟩

theorem Serial.of_step {m : Site.Move σ} (hserial : site.Serial)
    (hstep : site.step m = some site') : site'.Serial := by
  rcases cases_of_step hstep with ⟨setting, stages, folder, tree, hfree, rfl⟩ |
    ⟨k, move, begun, s, hbegun, hmove, rfl⟩ | hsame
  · constructor
    · intro k begun hbegun
      rcases cases_of_begin hbegun with hbefore | ⟨-, f, rfl⟩
      · exact hserial.inOrder k begun hbefore
      · exact ⟨_, inOrder_start _ _ _ _ _ _ _⟩
    · intro k begun hbegun hlast
      rcases cases_of_begin hbegun with hbefore | ⟨rfl, -⟩
      · exact returned_of_isFree hfree hbefore
      · rw [begin, List.length_append, List.length_singleton] at hlast
        exact absurd hlast (Nat.lt_irrefl _)
  · have hlength : (site.put k begun s).runs.length = site.runs.length := List.length_set
    constructor
    · intro j other hother
      rcases cases_of_put hother with ⟨-, hbefore⟩ | ⟨rfl, rfl⟩
      · exact hserial.inOrder j other hbefore
      · obtain ⟨n, hinOrder⟩ := hserial.inOrder j begun hbegun
        exact ⟨n, (hinOrder.amid site.fleet).of_step hmove⟩
    · intro j other hother hlast
      rw [hlength] at hlast
      rcases cases_of_put hother with ⟨-, hbefore⟩ | ⟨rfl, rfl⟩
      · exact hserial.returned j other hbefore hlast
      · exact returned_of_step (s := begun.state.amid site.fleet)
          (hserial.returned j begun hbegun hlast) hmove
  · constructor
    · rw [hsame]
      exact hserial.inOrder
    · rw [hsame]
      exact hserial.returned

theorem Serial.of_reaches (hserial : site.Serial) (hreaches : site.Reaches site') :
    site'.Serial := by
  induction hreaches with
  | here => exact hserial
  | move _ hstep ih => exact ih.of_step hstep

/-!
## Runs that have returned
-/

section Kept

variable {k : Nat} {setting : Setting σ} {P : State σ Float Rate.Millis → Prop}

/-- What its own moves keep of a run, among files and hosts that others change, all moves keep. -/
theorem kept_of_step
    (hkept : ∀ (f : Fleet σ) (s s' : State σ Float Rate.Millis) (move : Run.Move Rate.Millis),
      P s → (s.amid f).step setting move = some s' → P s')
    {m : Site.Move σ} (hthere : ∃ s, site.runs[k]? = some ⟨setting, s⟩ ∧ P s)
    (hstep : site.step m = some site') : ∃ s, site'.runs[k]? = some ⟨setting, s⟩ ∧ P s := by
  obtain ⟨s, hthere, hs⟩ := hthere
  have hk : k < site.runs.length := (List.getElem?_eq_some_iff.1 hthere).1
  rcases cases_of_step hstep with ⟨setting', stages, folder, tree, -, rfl⟩ |
    ⟨j, move, begun, s', hbegun, hmove, rfl⟩ | hsame
  · exact ⟨s, (List.getElem?_append_left hk).trans hthere, hs⟩
  · by_cases hj : j = k
    · subst hj
      rw [hthere] at hbegun
      cases hbegun
      exact ⟨s', List.getElem?_set_self hk, hkept site.fleet s s' move hs hmove⟩
    · exact ⟨s, (List.getElem?_set_ne hj).trans hthere, hs⟩
  · exact ⟨s, by rw [hsame, hthere], hs⟩

theorem kept_of_reaches
    (hkept : ∀ (f : Fleet σ) (s s' : State σ Float Rate.Millis) (move : Run.Move Rate.Millis),
      P s → (s.amid f).step setting move = some s' → P s')
    (hthere : ∃ s, site.runs[k]? = some ⟨setting, s⟩ ∧ P s) (hreaches : site.Reaches site') :
    ∃ s, site'.runs[k]? = some ⟨setting, s⟩ ∧ P s := by
  induction hreaches with
  | here => exact hthere
  | move _ hstep ih => exact kept_of_step hkept ih hstep

theorem finished_of_reaches {s : State σ Float Rate.Millis}
    (hthere : site.runs[k]? = some ⟨setting, s⟩) (hreturned : s.receiver.result?.isSome = true)
    (hquiet : s.Quiet) (hreaches : site.Reaches site') :
    ∃ s', site'.runs[k]? = some ⟨setting, s'⟩ ∧ s'.receiver.result?.isSome = true ∧ s'.Quiet ∧
      s'.calls = s.calls := by
  refine kept_of_reaches (fun f a b move hkept hmove => ?_)
    ⟨s, hthere, hreturned, hquiet, rfl⟩ hreaches
  obtain ⟨hreturned, hquiet, hcalls⟩ := hkept
  obtain ⟨hquiet', hcalls', -⟩ := Quiet.of_step (s := a.amid f) hquiet hreturned hmove
  exact ⟨returned_of_step (s := a.amid f) hreturned hmove, hquiet', hcalls'.trans hcalls⟩

end Kept

theorem config_of_step_run {k : Nat} {begun : Begun σ} {move : Run.Move Rate.Millis}
    (hbegun : site.runs[k]? = some begun) (hreturned : begun.state.receiver.result?.isSome = true)
    (hstep : site.step (.run k move) = some site') :
    site'.fleet.store.config = site.fleet.store.config := by
  obtain ⟨other, s, hother, -, rfl⟩ := exists_of_step_run hstep
  rw [hbegun] at hother
  cases hother
  obtain ⟨result, hresult⟩ := Option.isSome_iff_exists.1 hreturned
  rw [put]
  dsimp only
  rw [hresult]

theorem surroundings_of_step_run {k : Nat} {begun : Begun σ} {move : Run.Move Rate.Millis}
    (hbegun : site.runs[k]? = some begun) (hquiet : begun.state.Quiet)
    (hreturned : begun.state.receiver.result?.isSome = true)
    (hstep : site.step (.run k move) = some site') :
    site'.fleet.store.tree = site.fleet.store.tree ∧ site'.fleet.remote = site.fleet.remote := by
  obtain ⟨other, s, hother, hmove, rfl⟩ := exists_of_step_run hstep
  rw [hbegun] at hother
  cases hother
  have haround := (Quiet.of_step (s := begun.state.amid site.fleet) hquiet hreturned hmove).2.2
  obtain ⟨result, hresult⟩ := Option.isSome_iff_exists.1 hreturned
  refine ⟨?_, congrArg Surroundings.state haround⟩
  rw [put]
  dsimp only
  rw [hresult]
  exact congrArg Surroundings.tree haround

/--
Whatever fetches share a fleet, and in whatever order all of them move.  Once the receiver
of a run has returned, the run leaves the configuration alone.  If it was not broken off,
every worker has ended by then: later on, the run makes no call and changes neither files
nor hosts.  When a run has begun, each one before it has returned, and it has left nobody
behind unless it was broken off.
-/
theorem runs_serialize {f : Fleet σ} (hreached : (ofFleet f).Reaches site) :
    (∀ (k : Nat) (begun : Begun σ), site.runs[k]? = some begun →
      begun.state.receiver.result?.isSome = true → ∀ later, site.Reaches later →
        (∀ move after, later.step (.run k move) = some after →
          after.fleet.store.config = later.fleet.store.config) ∧
        (¬ begun.state.BrokenOff →
          (∃ s : State σ Float Rate.Millis, later.runs[k]? = some ⟨begun.setting, s⟩ ∧
            s.Quiet ∧ s.calls = begun.state.calls) ∧
          ∀ move after, later.step (.run k move) = some after →
            after.fleet.store.tree = later.fleet.store.tree ∧
              after.fleet.remote = later.fleet.remote)) ∧
    ∀ (j k : Nat) (earlier later : Begun σ), j < k → site.runs[j]? = some earlier →
      site.runs[k]? = some later →
        earlier.state.receiver.result?.isSome = true ∧
          (earlier.state.Quiet ∨ earlier.state.BrokenOff) := by
  have hserial := (serial_ofFleet f).of_reaches hreached
  constructor
  · intro k begun hbegun hreturned later hlater
    constructor
    · intro move after hstep
      obtain ⟨s, hthere, hstill⟩ := kept_of_reaches
        (fun f s s' move hs hmove => returned_of_step (s := s.amid f) hs hmove)
        ⟨begun.state, hbegun, hreturned⟩ hlater
      exact config_of_step_run hthere hstill hstep
    · intro hnot
      obtain ⟨n, hinOrder⟩ := hserial.inOrder k begun hbegun
      obtain ⟨s, hthere, hstill, hquiet, hcalls⟩ :=
        finished_of_reaches hbegun hreturned (hinOrder.quiet hreturned hnot) hlater
      refine ⟨⟨s, hthere, hquiet, hcalls⟩, ?_⟩
      intro move after hstep
      exact surroundings_of_step_run hthere hquiet hstill hstep
  · intro j k earlier later hjk hearlier hlater
    have hk : k < site.runs.length := (List.getElem?_eq_some_iff.1 hlater).1
    have hreturned := hserial.returned j earlier hearlier (by omega)
    obtain ⟨n, hinOrder⟩ := hserial.inOrder j earlier hearlier
    refine ⟨hreturned, ?_⟩
    by_cases hbroken : earlier.state.BrokenOff
    · exact Or.inr hbroken
    · exact Or.inl (hinOrder.quiet hreturned hbroken)

/-!
## Two fetches
-/

def oneAfterTheOther : Option (Site Account) :=
  let stages := [.fixed [⟨"uptime", "up.log", none⟩]]
  let moves : List (Run.Move Rate.Millis) :=
    .work 1 :: .work 0 :: List.replicate 3 (.work 1) ++ List.replicate 7 (.work 0) ++
      List.replicate 4 .receive
  (ofFleet (Fleet.pair.prepared ["w"])).steps
    (.begin Fleet.refusesSecond stages ["x"] :: moves.map (.run 0) ++
      .begin Fleet.refusesSecond stages ["y"] :: List.replicate 3 (.run 1 (.work 0)))

theorem oneAfterTheOther_facts :
    (oneAfterTheOther.map fun site =>
      site.runs.map fun begun => (begun.state.receiver, begun.state.sessions)) =
      some [(.returned (.ok ⟨⟨1, 1, 1⟩, false⟩), []), (.receiving 2, [0])] := by
  decide +kernel

theorem runs_serialize_pair :
    ∃ site first second, (ofFleet (Fleet.pair.prepared ["w"])).Reaches site ∧
      site.runs = [first, second] ∧
      first.state.receiver.result? = some (.ok ⟨⟨1, 1, 1⟩, false⟩) ∧
      second.state.sessions = [0] ∧ (first.state.Quiet ∨ first.state.BrokenOff) ∧
      ∀ later, site.Reaches later → ∃ s : State Account Float Rate.Millis,
        later.runs[0]? = some ⟨first.setting, s⟩ ∧ s.Quiet ∧ s.calls = first.state.calls := by
  obtain ⟨site, hsite, hfacts⟩ := Option.map_eq_some_iff.1 oneAfterTheOther_facts
  have hreached := reaches_of_steps hsite
  obtain ⟨hlife, horder⟩ := runs_serialize hreached
  obtain ⟨fleet, runs⟩ := site
  obtain ⟨first, rest, rfl, hfirst, hrest⟩ := List.map_eq_cons_iff.1 hfacts
  obtain ⟨second, rest, rfl, hsecond, hnil⟩ := List.map_eq_cons_iff.1 hrest
  obtain rfl := List.map_eq_nil_iff.1 hnil
  have hresult : first.state.receiver.result? = some (.ok ⟨⟨1, 1, 1⟩, false⟩) := by
    rw [(Prod.mk.inj hfirst).1]
    rfl
  have hreturned : first.state.receiver.result?.isSome = true := by
    rw [hresult]
    rfl
  have hnot : ¬ first.state.BrokenOff := by
    rw [BrokenOff, hresult]
    exact Bool.false_ne_true
  refine ⟨_, first, second, hreached, rfl, hresult, (Prod.mk.inj hsecond).2, ?_, ?_⟩
  · exact (horder 0 1 first second Nat.zero_lt_one rfl rfl).2
  · intro later hlater
    exact ((hlife 0 first rfl hreturned later hlater).2 hnot).1

/-!
## A run that leaves a worker behind
-/

def firstRecorded : Fleet Account :=
  let c := FleetConfig.new "demo" "/logs" "/fleetlog.yaml"
  let first := c.status.addInstance "a" ⟨"i-1", "10.0.0.1", ""⟩
  let members := first.addInstance "b" ⟨"i-2", "10.0.0.2", ""⟩
  let config := { c with
    limits := ⟨1000, 100, none⟩
    status := (members.record "a" "i-1" []).toOption.getD members }
  ⟨⟨config, (Tree.empty.makeFolders "/logs").2, []⟩, .zero, false⟩

def untilRefused : List (Site.Move Account) :=
  .begin Fleet.rehearsed Fleet.oneCommand ["x"] :: List.replicate 8 (.run 0 (.work 0)) ++
    [.run 0 .receive]

def bothAtWork : List (Site.Move Account) :=
  .begin Fleet.rehearsed Fleet.oneCommand ["y"] :: List.replicate 3 (.run 1 (.work 0)) ++
    List.replicate 6 (.run 0 (.work 1))

def overlapping : Option (Site Account × Site Account) :=
  ((ofFleet firstRecorded).steps untilRefused).bind fun before =>
    (before.steps bothAtWork).map fun later => (before, later)

def callsOf (begun : Begun Account) (w : Nat) : List Call :=
  (begun.state.calls.filter fun c => c.1 == w).map fun c => c.2.1

theorem overlapping_before :
    (overlapping.map fun (before, _) =>
      (before.runs.map fun begun =>
          (begun.state.receiver, begun.state.calledOff, callsOf begun 1),
        (before.fleet.store.tree.read "/logs/demo-logsx/i-2--up.log").isOk)) =
      some ([(.returned (.error (.duplicateInstance "a" "i-1")), false, [])], false) := by
  decide +kernel

theorem overlapping_later :
    (overlapping.map fun (_, later) =>
      (later.runs.map fun begun => (begun.state.sessions, callsOf begun 1),
        (later.fleet.store.tree.read "/logs/demo-logsx/i-2--up.log").isOk)) =
      some ([([1], [.run "uptime", .connect]), ([0], [])], true) := by
  decide +kernel

/--
The record of a first member is refused, and the run returns at once, called off by nobody.
While the next run has a session open, a worker of the first run connects to the second
member, runs a command there and writes a file.
-/
theorem firstRecorded_overlaps :
    ∃ before later first first' second, (ofFleet firstRecorded).Reaches before ∧
      before.Reaches later ∧ before.runs = [first] ∧ later.runs = [first', second] ∧
      first.state.receiver.result? = some (.error (.duplicateInstance "a" "i-1")) ∧
      first.state.calledOff = false ∧ callsOf first 1 = [] ∧
      callsOf first' 1 = [.run "uptime", .connect] ∧
      (before.fleet.store.tree.read "/logs/demo-logsx/i-2--up.log").isOk = false ∧
      (later.fleet.store.tree.read "/logs/demo-logsx/i-2--up.log").isOk = true ∧
      first'.state.sessions = [1] ∧ second.state.sessions = [0] := by
  obtain ⟨⟨before, later⟩, hsites, hbefore⟩ := Option.map_eq_some_iff.1 overlapping_before
  obtain ⟨other, hother, hlater⟩ := Option.map_eq_some_iff.1 overlapping_later
  obtain rfl : other = (before, later) := Option.some.inj (hother.symm.trans hsites)
  obtain ⟨a, ha, hrest⟩ := Option.bind_eq_some_iff.1 hsites
  obtain ⟨b, hb, hpair⟩ := Option.map_eq_some_iff.1 hrest
  cases hpair
  simp only [Prod.mk.injEq] at hbefore hlater
  obtain ⟨hruns, hnone⟩ := hbefore
  obtain ⟨hruns', hsome⟩ := hlater
  obtain ⟨first, rest, hfirst, hfacts, hnil⟩ := List.map_eq_cons_iff.1 hruns
  obtain rfl := List.map_eq_nil_iff.1 hnil
  obtain ⟨first', rest', hfirst', hfacts', hsecond⟩ := List.map_eq_cons_iff.1 hruns'
  obtain ⟨second, rest, rfl, hfacts'', hnil⟩ := List.map_eq_cons_iff.1 hsecond
  obtain rfl := List.map_eq_nil_iff.1 hnil
  simp only [Prod.mk.injEq] at hfacts hfacts' hfacts''
  obtain ⟨hreceiver, hcalm, hcalls⟩ := hfacts
  refine ⟨before, later, first, first', second, reaches_of_steps ha, reaches_of_steps hb, hfirst,
    hfirst', ?_, hcalm, hcalls, hfacts'.2, hnone, hsome, hfacts'.1, hfacts''.1⟩
  rw [hreceiver]
  rfl

end Site
end LogHarvest
