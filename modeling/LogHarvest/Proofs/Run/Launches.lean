import Mathlib.Algebra.BigOperators.Group.Finset.Piecewise
import Mathlib.Algebra.Order.BigOperators.Group.Finset
import Mathlib.Algebra.BigOperators.Ring.Finset
import LogHarvest.Proofs.Run.Pace
import LogHarvest.Proofs.Session.Retrying

/-!
# How fast a run launches its program

Over ssh a run's calls are launches of a program.  A command is one launch, but to connect
is to probe, and a probe that fails is repeated after a pause without another token.  So
only the first launch for each call is paid for at the gate.

A launch is counted here with its ordinal, the number of launches for the same call before
it (`State.launchesBy`).  There are at most as many launches of an ordinal up to a time as
calls up to so many pauses before (`exists_calling`), which bounds them all
(`launches_le_rate`).
-/

namespace LogHarvest
namespace Ssh

variable {σ : Type}

/-- When the program is launched for some deeds, in milliseconds from some time on. -/
def launches : (elapsed : Nat) → List Deed → List Nat
  | _, [] => []
  | elapsed, .tried _ millis :: rest => elapsed :: launches (elapsed + millis) rest
  | elapsed, .paused :: rest => launches (elapsed + pause) rest

theorem cases_of_probe (launch : Launcher σ) (r : RemoteAccess) (target : String) (more : Nat)
    (w : Surroundings σ) :
    ∃ millis, (probe launch r target more w).deeds = [.tried probeLine millis] ∨
      ∃ fewer after, more = fewer + 1 ∧ (probe launch r target more w).deeds =
        .tried probeLine millis :: .paused :: (probe launch r target fewer after).deeds := by
  obtain ⟨millis, hdeeds⟩ :=
    exists_deeds_exec launch r target probeLine r.connectTimeout.toNat w
  refine ⟨millis, ?_⟩
  cases more with
  | zero =>
      left
      unfold probe
      dsimp only
      split <;> exact hdeeds
  | succ fewer =>
      cases hresult : (exec launch r target probeLine r.connectTimeout.toNat w).result with
      | ok _ =>
          left
          simp only [probe, hresult]
          exact hdeeds
      | error _ =>
          refine Or.inr ⟨fewer, (exec launch r target probeLine r.connectTimeout.toNat w).after, ?_⟩
          refine ⟨rfl, ?_⟩
          simp only [probe, hresult, hdeeds]
          rfl

theorem launches_probe {launch : Launcher σ} {r : RemoteAccess} {target : String} {more : Nat}
    {w : Surroundings σ} {elapsed k offset : Nat}
    (hlaunch : (launches elapsed (probe launch r target more w).deeds)[k]? = some offset) :
    k ≤ more ∧ elapsed + k * pause ≤ offset := by
  induction k generalizing more w elapsed with
  | zero =>
      obtain ⟨millis, hone | ⟨fewer, after, -, hmore⟩⟩ := cases_of_probe launch r target more w
      · rw [hone] at hlaunch
        cases hlaunch
        exact ⟨Nat.zero_le _, by omega⟩
      · rw [hmore] at hlaunch
        cases hlaunch
        exact ⟨Nat.zero_le _, by omega⟩
  | succ k ih =>
      obtain ⟨millis, hone | ⟨fewer, after, rfl, hmore⟩⟩ := cases_of_probe launch r target more w
      · rw [hone] at hlaunch
        cases hlaunch
      · rw [hmore] at hlaunch
        obtain ⟨hk, hoffset⟩ := ih hlaunch
        rw [Nat.succ_mul]
        omega

theorem launches_connect {launch : Launcher σ} {r : RemoteAccess} {i : Instance}
    {w : Surroundings σ} {k offset : Nat}
    (hlaunch : (launches 0 (connect launch r i w).deeds)[k]? = some offset) :
    k < attempts r ∧ k * pause ≤ offset := by
  unfold connect at hlaunch
  split at hlaunch
  · cases hlaunch
  · obtain ⟨hk, hoffset⟩ := launches_probe hlaunch
    unfold attempts
    omega

theorem launches_run {launch : Launcher σ} {r : RemoteAccess} {s : Session} {line : String}
    {w : Surroundings σ} {k offset : Nat}
    (hlaunch : (launches 0 (s.run launch r line w).deeds)[k]? = some offset) :
    k < attempts r ∧ k * pause ≤ offset := by
  unfold Session.run at hlaunch
  split at hlaunch
  · obtain ⟨millis, hdeeds⟩ :=
      exists_deeds_exec launch r s.target line r.commandTimeout.toNat w
    rw [hdeeds] at hlaunch
    cases k with
    | zero =>
        unfold attempts
        omega
    | succ k => cases hlaunch
  · cases hlaunch

end Ssh

namespace Run

variable {σ α τ : Type}

def Setting.overSsh (setting : Setting σ) (launch : Launcher σ) (r : RemoteAccess) : Setting σ :=
  { setting with connector := Ssh.connector launch r }

namespace State

def deedsBy (launch : Launcher σ) (r : RemoteAccess) (s : State σ α τ) : Move τ → List Ssh.Deed
  | .work w =>
      match s.workers[w]? with
      | some (.active c) =>
          match c.request with
          | .connect => (Ssh.connect launch r c.subject s.around).deeds
          | .run line => (Ssh.Session.run launch r ⟨c.subject.target, true⟩ line s.around).deeds
          | _ => []
      | _ => []
  | _ => []

def launchesBy (launch : Launcher σ) (r : RemoteAccess) (s : State σ α Rat) (m : Move Rat) :
    List (Nat × Rat) :=
  (Ssh.launches 0 (s.deedsBy launch r m)).zipIdx.map fun (offset, k) =>
    (k, s.now + (offset : Rat) / 1000)

inductive Launching (launch : Launcher σ) (r : RemoteAccess) (setting : Setting σ)
    (first : State σ Rat Rat) : List (Nat × Rat) → State σ Rat Rat → Prop
  | here : Launching launch r setting first [] first
  | move {started : List (Nat × Rat)} {a b : State σ Rat Rat} {m : Move Rat} :
      Launching launch r setting first started a →
      a.step (setting.overSsh launch r) m = some b →
      Launching launch r setting first (a.launchesBy launch r m ++ started) b

variable {launch : Launcher σ} {r : RemoteAccess} {setting : Setting σ}

def launchesOf (launch : Launcher σ) (r : RemoteAccess) (setting : Setting σ) :
    State σ Rat Rat → List (Nat × Rat) → List (Move Rat) →
      Option (List (Nat × Rat) × State σ Rat Rat)
  | s, started, [] => some (started, s)
  | s, started, m :: rest =>
      (s.step (setting.overSsh launch r) m).bind fun b =>
        launchesOf launch r setting b (s.launchesBy launch r m ++ started) rest

theorem launching_of_launchesOf {first s last : State σ Rat Rat} {before started : List (Nat × Rat)}
    {moves : List (Move Rat)} (hbefore : Launching launch r setting first before s)
    (hlaunches : launchesOf launch r setting s before moves = some (started, last)) :
    Launching launch r setting first started last := by
  induction moves generalizing s before with
  | nil =>
      cases hlaunches
      exact hbefore
  | cons m rest ih =>
      obtain ⟨b, hstep, hrest⟩ := Option.bind_eq_some_iff.1 hlaunches
      exact ih (hbefore.move hstep) hrest

/-!
## The launches of one move
-/

theorem callBy_of_launch {s : State σ α τ} {m : Move τ} {k offset : Nat}
    (hlaunch : (Ssh.launches 0 (s.deedsBy launch r m))[k]? = some offset) :
    (s.callBy m).isSome = true ∧ k < Ssh.attempts r ∧ k * Ssh.pause ≤ offset := by
  unfold deedsBy at hlaunch
  split at hlaunch
  · split at hlaunch
    · rename_i hduty
      split at hlaunch
      · rename_i hrequest
        refine ⟨?_, Ssh.launches_connect hlaunch⟩
        simp only [callBy, hduty, hrequest, callFor, Option.isSome_some]
      · rename_i line hrequest
        refine ⟨?_, Ssh.launches_run hlaunch⟩
        simp only [callBy, hduty, hrequest, callFor, Option.isSome_some]
      · cases hlaunch
    · cases hlaunch
  · cases hlaunch

theorem cases_of_launchesBy {s : State σ α Rat} {m : Move Rat} {l : Nat × Rat}
    (hmem : l ∈ s.launchesBy launch r m) :
    (s.callBy m).isSome = true ∧ l.1 < Ssh.attempts r ∧ s.now + 2 * (l.1 : Rat) ≤ l.2 := by
  obtain ⟨⟨offset, k⟩, hindex, rfl⟩ := List.mem_map.1 hmem
  obtain ⟨hcall, hk, hoffset⟩ := callBy_of_launch (List.mk_mem_zipIdx_iff_getElem?.1 hindex)
  refine ⟨hcall, hk, ?_⟩
  have hcast : (k : Rat) * 2000 ≤ offset := by exact_mod_cast hoffset
  dsimp only
  linarith

def launchedBy (started : List (Nat × Rat)) (k : Nat) (time : Rat) : Nat :=
  started.countP fun l => l.1 = k ∧ l.2 ≤ time

theorem launchedBy_append (later earlier : List (Nat × Rat)) (k : Nat) (time : Rat) :
    launchedBy (later ++ earlier) k time = launchedBy later k time + launchedBy earlier k time :=
  List.countP_append

theorem launchedBy_le_one (s : State σ α Rat) (m : Move Rat) (k : Nat) (time : Rat) :
    launchedBy (s.launchesBy launch r m) k time ≤ 1 := by
  have hordinals : (s.launchesBy launch r m).map Prod.fst =
      List.range' 0 (Ssh.launches 0 (s.deedsBy launch r m)).length := by
    rw [launchesBy, List.map_map]
    exact List.zipIdx_map_snd 0 _
  calc
    launchedBy (s.launchesBy launch r m) k time
      ≤ (s.launchesBy launch r m).countP (fun l => l.1 = k) := by
        refine List.countP_mono_left ?_
        intro l _ hl
        exact decide_eq_true (of_decide_eq_true hl).1
    _ = ((s.launchesBy launch r m).map Prod.fst).count k := by
        rw [List.count, List.countP_map]
        rfl
    _ ≤ 1 := by
        rw [hordinals]
        exact List.nodup_iff_count_le_one.1 List.nodup_range' k

theorem launchedBy_le_callBy (s : State σ α Rat) (m : Move Rat) (k : Nat) (time : Rat) :
    launchedBy (s.launchesBy launch r m) k time ≤
      ((s.callBy m).toList.map fun call => (call, s.now)).countP
        fun call => call.2 ≤ time - 2 * (k : Rat) := by
  by_cases hnone : launchedBy (s.launchesBy launch r m) k time = 0
  · rw [hnone]
    exact Nat.zero_le _
  · obtain ⟨l, hmem, hl⟩ := List.countP_pos_iff.1 (Nat.pos_of_ne_zero hnone)
    obtain ⟨rfl, htime⟩ := of_decide_eq_true hl
    obtain ⟨hcall, -, hpaused⟩ := cases_of_launchesBy hmem
    obtain ⟨call, hcall⟩ := Option.isSome_iff_exists.1 hcall
    have hearly : s.now ≤ time - 2 * (l.1 : Rat) := by linarith
    refine le_trans (launchedBy_le_one s m l.1 time) ?_
    rw [hcall, Option.toList_some, List.map_singleton, List.countP_singleton]
    simp [hearly]

/-!
## The launches of a course
-/

theorem exists_calling {first last : State σ Rat Rat} {started : List (Nat × Rat)}
    (hlaunching : Launching launch r setting first started last) :
    ∃ made, Calling (setting.overSsh launch r) first made last ∧
      ∀ k time, launchedBy started k time ≤
        made.countP fun call => call.2 ≤ time - 2 * (k : Rat) := by
  induction hlaunching with
  | here => exact ⟨[], .here, fun _ _ => Nat.le_refl 0⟩
  | @move started a b m _ hstep ih =>
      obtain ⟨made, hcalling, hcount⟩ := ih
      refine ⟨_, hcalling.move hstep, ?_⟩
      intro k time
      rw [launchedBy_append, List.countP_append]
      exact Nat.add_le_add (launchedBy_le_callBy a m k time) (hcount k time)

theorem ordinal_lt_attempts {first last : State σ Rat Rat} {started : List (Nat × Rat)}
    (hlaunching : Launching launch r setting first started last) :
    ∀ l ∈ started, l.1 < Ssh.attempts r := by
  induction hlaunching with
  | here => exact nofun
  | move _ _ ih =>
      intro l hmem
      rcases List.mem_append.1 hmem with hmem | hmem
      · exact (cases_of_launchesBy hmem).2.1
      · exact ih l hmem

theorem sum_launchedBy_singleton {l : Nat × Rat} {n : Nat} (hbound : l.1 < n) (time : Rat) :
    ∑ k ∈ Finset.range n, launchedBy [l] k time = if l.2 ≤ time then 1 else 0 := by
  have hone : ∀ k, launchedBy [l] k time =
      if l.1 = k then (if l.2 ≤ time then 1 else 0) else 0 := by
    intro k
    rw [launchedBy, List.countP_singleton]
    simp only [decide_eq_true_eq, ite_and]
  simp only [hone]
  rw [Finset.sum_ite_eq, if_pos (Finset.mem_range.2 hbound)]

theorem countP_eq_sum {started : List (Nat × Rat)} {n : Nat} (hbound : ∀ l ∈ started, l.1 < n)
    (time : Rat) :
    (started.countP fun l => l.2 ≤ time) =
      ∑ k ∈ Finset.range n, launchedBy started k time := by
  induction started with
  | nil => exact (Finset.sum_eq_zero fun _ _ => rfl).symm
  | cons l rest ih =>
      obtain ⟨hfirst, hrest⟩ := List.forall_mem_cons.1 hbound
      have hsplit : ∀ k, launchedBy (l :: rest) k time =
          launchedBy [l] k time + launchedBy rest k time :=
        fun k => launchedBy_append [l] rest k time
      simp only [hsplit]
      rw [Finset.sum_add_distrib, sum_launchedBy_singleton hfirst, ← ih hrest, List.countP_cons,
        Nat.add_comm]
      simp only [decide_eq_true_eq]

theorem countP_eq_first (started : List (Nat × Rat)) (time : Rat) :
    (started.countP fun l => l.2 ≤ time) =
      launchedBy started 0 time + started.countP fun l => 0 < l.1 ∧ l.2 ≤ time := by
  unfold launchedBy
  induction started with
  | nil => rfl
  | cons l rest ih =>
      simp only [List.countP_cons, ih, decide_eq_true_eq]
      by_cases hfirst : l.1 = 0
      · simp [hfirst]
        omega
      · simp [hfirst, Nat.pos_of_ne_zero hfirst]
        omega

/-!
## The whole run
-/

/-- How many calls a bucket pays for in a time, and none in no time. -/
def allowance (qps : Rat) (burst : Nat) (elapsed : Rat) : Rat :=
  if 0 ≤ elapsed then (max burst 1 : Nat) + qps * elapsed else 0

section

variable {store : FleetStore} {stages : List Protocol.Stage} {folder : Path} {qps now : Rat}
  {burst : Nat} {calledOff : Bool} {remote : σ}

theorem now_le_made {first last : State σ Rat Rat} {made : List (Call × Rat)}
    (hrests : first.RestsAtGate) (hcalling : Calling setting first made last) :
    first.now ≤ last.now ∧ ∀ call ∈ made, first.now ≤ call.2 := by
  induction hcalling with
  | here => exact ⟨le_refl _, nofun⟩
  | move hbefore hstep ih =>
      obtain ⟨hclock, hmade⟩ := ih
      have hreaches := restsAtGate_of_reaches hrests (reaches_of_calling hbefore)
      refine ⟨le_trans hclock (calls_of_step hreaches hstep).1, ?_⟩
      intro call hmem
      rcases List.mem_append.1 hmem with hmem | hmem
      · obtain ⟨_, -, rfl⟩ := List.mem_map.1 hmem
        exact hclock
      · exact hmade call hmem

theorem made_le_rate {made : List (Call × Rat)} {last : State σ Rat Rat} {elapsed : Rat}
    (hqps : 0 < qps)
    (hcalling : Calling setting (exactRun store stages folder qps burst now calledOff remote) made
      last) :
    ((made.countP fun call => call.2 ≤ now + elapsed : Nat) : Rat) ≤
      allowance qps burst elapsed := by
  have hrests : (exactRun store stages folder qps burst now calledOff remote).RestsAtGate :=
    restsAtGate_start _ _ _ _ _ _ _
  unfold allowance
  split
  · rename_i helapsed
    have hmade := (accounted_of_calling hrests accounted_exactRun hcalling).madeBy (now + elapsed)
    have hpaced := paced_of_reaches hrests (paced_exactRun hqps) (reaches_of_calling hcalling)
    have hused := hpaced.used (now + elapsed) (le_add_of_nonneg_right helapsed)
    rw [add_sub_cancel_left] at hused
    refine le_trans ?_ hused
    exact_mod_cast le_trans hmade (Nat.le_add_right _ _)
  · rename_i hbefore
    have hnone : (made.countP fun call => call.2 ≤ now + elapsed) = 0 := by
      refine List.countP_eq_zero.2 ?_
      intro call hmem hby
      have hstart : now ≤ call.2 := (now_le_made hrests hcalling).2 call hmem
      have hby := of_decide_eq_true hby
      exact hbefore (by linarith)
    rw [hnone]
    exact le_of_eq Nat.cast_zero

/--
Over ssh a run does not keep to the rate of its calls, but nearly so.  The launches with an
ordinal are bounded by what the bucket paid for so many pauses before, and all launches by
the sum of that over the attempts that are allowed.  Without the probes that were repeated
they keep to the rate.
-/
theorem launches_le_rate {started : List (Nat × Rat)} {last : State σ Rat Rat} {elapsed : Rat}
    (hqps : 0 < qps) (helapsed : 0 ≤ elapsed)
    (hlaunching : Launching launch r setting
      (exactRun store stages folder qps burst now calledOff remote) started last) :
    (∀ k, (launchedBy started k (now + elapsed) : Rat) ≤
        allowance qps burst (elapsed - 2 * (k : Rat))) ∧
      ((started.countP fun l => l.2 ≤ now + elapsed : Nat) : Rat) ≤
        (∑ k ∈ Finset.range (Ssh.attempts r), allowance qps burst (elapsed - 2 * (k : Rat))) ∧
      ((started.countP fun l => l.2 ≤ now + elapsed : Nat) : Rat) ≤
        (max burst 1 : Nat) + qps * elapsed +
          (started.countP fun l => 0 < l.1 ∧ l.2 ≤ now + elapsed : Nat) := by
  obtain ⟨made, hcalling, hcount⟩ := exists_calling hlaunching
  have hordinal : ∀ k, (launchedBy started k (now + elapsed) : Rat) ≤
      allowance qps burst (elapsed - 2 * (k : Rat)) := by
    intro k
    refine le_trans ?_ (made_le_rate hqps hcalling)
    rw [← add_sub_assoc]
    exact_mod_cast hcount k (now + elapsed)
  refine ⟨hordinal, ?_, ?_⟩
  · rw [countP_eq_sum (ordinal_lt_attempts hlaunching), Nat.cast_sum]
    exact Finset.sum_le_sum fun k _ => hordinal k
  · have hfirst : (launchedBy started 0 (now + elapsed) : Rat) ≤
        (max burst 1 : Nat) + qps * elapsed := by
      simpa [allowance, helapsed] using hordinal 0
    rw [countP_eq_first, Nat.cast_add]
    exact add_le_add_left hfirst _

end

/-!
## A token in ten seconds, and a host that nothing reaches

The connection takes the token that the bucket starts with.  The host is probed three
times, within four seconds.
-/

def unreachable : Launcher Unit :=
  fun _ _ _ w => (.ok ⟨[], [], .exited 255, 0⟩, w)

def cutOff : Setting Unit where
  connector := Ssh.connector unreachable .default
  verbose := false
  suffix _ _ := ""
  flaw _ _ := none

def slowRun : State Unit Rat Rat :=
  exactRun lone [] "/logs/run" (1 / 10) 1 0 false ()

def oneCall : List (Move Rat) :=
  [.work 0, .work 0, .work 0, .work 0, .tick 4]

theorem slowRun_facts :
    ((launchesOf unreachable .default cutOff slowRun [] oneCall).map fun (started, last) =>
      (started, last.now)) = some ([(0, 0), (1, 2), (2, 4)], 4) := by
  decide +kernel

theorem launches_le_rate_cutOff :
    ∃ started last, Launching unreachable .default cutOff slowRun started last ∧
      (started.countP fun l => l.2 ≤ 0 + 4) = 3 ∧
      (∀ k, (launchedBy started k (0 + 4) : Rat) ≤ allowance (1 / 10) 1 (4 - 2 * (k : Rat))) ∧
      ((started.countP fun l => l.2 ≤ 0 + 4 : Nat) : Rat) ≤
        (∑ k ∈ Finset.range (Ssh.attempts .default), allowance (1 / 10) 1 (4 - 2 * (k : Rat))) ∧
      ((started.countP fun l => l.2 ≤ 0 + 4 : Nat) : Rat) ≤
        (max 1 1 : Nat) + 1 / 10 * 4 +
          (started.countP fun l => 0 < l.1 ∧ l.2 ≤ 0 + 4 : Nat) := by
  obtain ⟨⟨started, last⟩, hlaunches, hfacts⟩ := Option.map_eq_some_iff.1 slowRun_facts
  have hlaunching := launching_of_launchesOf .here hlaunches
  refine ⟨started, last, hlaunching, ?_,
    launches_le_rate (by decide +kernel) (by decide +kernel) hlaunching⟩
  rw [show started = _ from congrArg Prod.fst hfacts]
  decide +kernel

theorem probes_exceed_rate :
    ¬ ∀ started last, Launching unreachable .default cutOff slowRun started last →
      ((started.countP fun l => l.2 ≤ 0 + 4 : Nat) : Rat) ≤ (max 1 1 : Nat) + 1 / 10 * 4 := by
  intro hbound
  obtain ⟨⟨started, last⟩, hlaunches, hfacts⟩ := Option.map_eq_some_iff.1 slowRun_facts
  have hthree := hbound started last (launching_of_launchesOf .here hlaunches)
  rw [show started = _ from congrArg Prod.fst hfacts] at hthree
  exact absurd hthree (by decide +kernel)

end State
end Run
end LogHarvest
