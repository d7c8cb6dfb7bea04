import LogHarvest.Session.Ssh

/-!
# Connecting by trying again

To connect is to probe an instance round after round.  What the rounds would come to, if
there were no end to them, is known from the program that is launched (`round`).  An attempt
to connect makes the rounds up to the first that succeeds, but not more of them than the
settings allow, with one pause between two rounds and none after the last (`probed_probe`).
So it depends on these rounds alone whether there is a session, and on the last of them why
there is none (`connects_by_retrying`).
-/

namespace LogHarvest
namespace Ssh

variable {σ : Type}

def attempts (r : RemoteAccess) : Nat :=
  max r.connectRetries.toNat 1

theorem exists_deeds_exec (launch : Launcher σ) (r : RemoteAccess) (target line : String)
    (secs : Nat) (w : Surroundings σ) :
    ∃ millis, (exec launch r target line secs w).deeds = [.tried line millis] := by
  unfold exec
  split <;> exact ⟨_, rfl⟩

theorem deeds_exec (launch : Launcher σ) (r : RemoteAccess) (target line : String)
    (secs : Nat) (w : Surroundings σ) :
    (exec launch r target line secs w).deeds =
      [.tried line (exec launch r target line secs w).millis] := by
  obtain ⟨millis, hdeeds⟩ := exists_deeds_exec launch r target line secs w
  rw [Trial.millis, hdeeds]
  rfl

/-!
## Rounds
-/

section

variable (launch : Launcher σ) (r : RemoteAccess) (target : String)

def round : (k : Nat) → Surroundings σ → Trial σ Text.Bytes
  | 0, w => exec launch r target probeLine r.connectTimeout.toNat w
  | k + 1, w => round k (exec launch r target probeLine r.connectTimeout.toNat w).after

/-- What is done in a number of rounds: a probe in each of them, and a pause between two. -/
def deedsOf (rounds : Nat) (w : Surroundings σ) : List Deed :=
  ((List.range rounds).map fun j =>
    Deed.tried probeLine (round launch r target j w).millis).intersperse .paused

theorem deedsOf_one (w : Surroundings σ) :
    deedsOf launch r target 1 w = (round launch r target 0 w).deeds :=
  (deeds_exec launch r target probeLine _ w).symm

theorem deedsOf_succ (k : Nat) (w : Surroundings σ) :
    deedsOf launch r target (k + 2) w = (round launch r target 0 w).deeds ++
      .paused :: deedsOf launch r target (k + 1) (round launch r target 0 w).after := by
  have hfirst : (round launch r target 0 w).deeds =
      [.tried probeLine (round launch r target 0 w).millis] :=
    deeds_exec launch r target probeLine _ w
  rw [hfirst, deedsOf, deedsOf, List.range_succ_eq_map, List.map_cons, List.map_map,
    List.range_succ_eq_map, List.map_cons, List.map_cons, List.intersperse_cons_cons]
  rfl

/--
What becomes of an attempt that may make so many rounds: it ends with a round that
succeeds, or with the last one.
-/
structure Probed {α : Type} (most k : Nat) (session : α) (w : Surroundings σ)
    (trial : Trial σ α) : Prop where
  made : k < most
  failed : ∀ j < k, (round launch r target j w).result.isOk = false
  ended : (round launch r target k w).result.isOk = true ∨ k + 1 = most
  deeds : trial.deeds = deedsOf launch r target (k + 1) w
  after : trial.after = (round launch r target k w).after
  result : trial.result = ((round launch r target k w).result.map fun _ => session).mapError
    fun fault => .connect target fault.message

variable {launch r target}

theorem Probed.isOk_iff {α : Type} {most k : Nat} {session : α} {w : Surroundings σ}
    {trial : Trial σ α} (hprobed : Probed launch r target most k session w trial) :
    trial.result = .ok session ↔ ∃ j < most, (round launch r target j w).result.isOk = true := by
  rw [hprobed.result]
  constructor
  · intro hresult
    refine ⟨k, hprobed.made, ?_⟩
    cases hround : (round launch r target k w).result with
    | ok _ => rfl
    | error fault =>
        rw [hround] at hresult
        cases hresult
  · rintro ⟨j, hj, hsucceeded⟩
    -- A round that succeeds is not before the last one, and the last one ends the attempt.
    have hlast : (round launch r target k w).result.isOk = true := by
      rcases hprobed.ended with hended | hended
      · exact hended
      · rcases Nat.lt_or_ge j k with hless | hge
        · rw [hprobed.failed j hless] at hsucceeded
          cases hsucceeded
        · rwa [show j = k by omega] at hsucceeded
    cases hround : (round launch r target k w).result with
    | ok _ => rfl
    | error fault =>
        rw [hround] at hlast
        cases hlast

theorem probed_probe (launch : Launcher σ) (r : RemoteAccess) (target : String) (more : Nat)
    (w : Surroundings σ) :
    ∃ k, Probed launch r target (more + 1) k () w (probe launch r target more w) := by
  induction more generalizing w with
  | zero =>
      refine ⟨0, Nat.zero_lt_one, nofun, Or.inr rfl, ?_, ?_, ?_⟩
      · rw [deedsOf_one]
        unfold probe
        dsimp only
        split <;> rfl
      · unfold probe
        dsimp only
        split <;> rfl
      · unfold probe
        dsimp only
        split
        · rename_i hround
          rw [round, hround]
          rfl
        · rename_i hround
          rw [round, hround]
          rfl
  | succ more ih =>
      cases hround : (round launch r target 0 w).result with
      | ok out =>
          have htrial : probe launch r target (more + 1) w =
              ⟨.ok (), (round launch r target 0 w).deeds, (round launch r target 0 w).after⟩ := by
            rw [round] at hround ⊢
            rw [probe]
            simp only [hround]
          rw [htrial]
          refine ⟨0, Nat.succ_pos _, nofun, Or.inl ?_, (deedsOf_one ..).symm, rfl, ?_⟩
          · rw [hround]
            rfl
          · rw [hround]
            rfl
      | error fault =>
          -- The rounds that are left are those of a probe of its own, from what this one left.
          obtain ⟨k, hnext⟩ := ih (round launch r target 0 w).after
          have htrial : probe launch r target (more + 1) w =
              ⟨(probe launch r target more (round launch r target 0 w).after).result,
                (round launch r target 0 w).deeds ++ .paused ::
                  (probe launch r target more (round launch r target 0 w).after).deeds,
                (probe launch r target more (round launch r target 0 w).after).after⟩ := by
            rw [round] at hround ⊢
            rw [probe]
            simp only [hround]
          rw [htrial]
          refine ⟨k + 1, Nat.succ_lt_succ hnext.made, ?_, ?_, ?_, hnext.after, hnext.result⟩
          · rintro (_ | j) hj
            · rw [hround]
              rfl
            · exact hnext.failed j (Nat.lt_of_succ_lt_succ hj)
          · exact hnext.ended.imp id fun hlast => congrArg (· + 1) hlast
          · rw [deedsOf_succ, ← hnext.deeds]

end

/-!
## Sessions
-/

theorem target_isEmpty_iff (i : Instance) :
    i.target.isEmpty = true ↔ i.publicIp = "" ∧ i.publicName = "" := by
  unfold Instance.target
  split
  · rename_i hip
    rw [String.isEmpty_iff] at hip ⊢
    exact ⟨fun hname => ⟨hip, hname⟩, And.right⟩
  · rename_i hip
    rw [String.isEmpty_iff] at hip ⊢
    exact ⟨fun htarget => absurd htarget hip, fun hnone => absurd hnone.1 hip⟩

/--
An instance without addresses is not probed at all.  Any other is probed until a probe
succeeds, or as often as the settings allow (but at least once): there is a session exactly
if one of these probes succeeds, and otherwise the fault names the target and has the text
of the last probe's fault.  A session that was closed launches nothing, whatever it is to run.
-/
theorem connects_by_retrying (launch : Launcher σ) (r : RemoteAccess) (i : Instance)
    (w : Surroundings σ) :
    (if i.publicIp = "" ∧ i.publicName = "" then
        connect launch r i w = ⟨.error (.connect i.id noAddress), [], w⟩
      else
        (∃ k, Probed launch r i.target (attempts r) k ⟨i.target, true⟩ w (connect launch r i w)) ∧
          ((connect launch r i w).result = .ok ⟨i.target, true⟩ ↔
            ∃ j < attempts r, (round launch r i.target j w).result.isOk = true)) ∧
      ∀ (s : Session) (line : String) (w' : Surroundings σ),
        s.close.run launch r line w' = ⟨.error .closed, [], w'⟩ := by
  refine ⟨?_, fun s line w' => rfl⟩
  have hnone := target_isEmpty_iff i
  split
  · rename_i hunknown
    unfold connect
    rw [if_pos (hnone.2 hunknown)]
  · rename_i hknown
    have hmost : attempts r = r.connectRetries.toNat - 1 + 1 := by
      unfold attempts
      omega
    obtain ⟨k, hprobe⟩ := probed_probe launch r i.target (r.connectRetries.toNat - 1) w
    rw [← hmost] at hprobe
    have hprobed : Probed launch r i.target (attempts r) k ⟨i.target, true⟩ w
        (connect launch r i w) := by
      unfold connect
      rw [if_neg fun htarget => hknown (hnone.1 htarget)]
      refine ⟨hprobe.made, hprobe.failed, hprobe.ended, hprobe.deeds, hprobe.after, ?_⟩
      dsimp only
      rw [hprobe.result]
      cases (round launch r i.target k w).result <;> rfl
    exact ⟨⟨k, hprobed⟩, hprobed.isOk_iff⟩

def prescribed : Launcher (List (Except IoFault Ran)) := fun _ _ _ w =>
  match w.state with
  | [] => (.error .notFound, w)
  | ending :: rest => (ending, { w with state := rest })

example :
    let answers : List (Except IoFault Ran) :=
      [.error .accessDenied, .ok ⟨[], [], .unfinished, 15000⟩, .ok ⟨[], [], .exited 0, 70⟩]
    let settings (retries : UInt32) := { RemoteAccess.default with connectRetries := retries }
    let trial (retries : UInt32) :=
      connect prescribed (settings retries) ⟨"i-1", "", "host"⟩ ⟨answers, .empty⟩
    (trial 3).deeds = [.tried "true" 0, .paused, .tried "true" 15000, .paused, .tried "true" 70] ∧
      (trial 3).result = .ok ⟨"host", true⟩ ∧
      (trial 2).deeds = [.tried "true" 0, .paused, .tried "true" 15000] ∧
      (trial 2).result =
        .error (.connect "host" "command \"true\" timed out after 15s") :=
  ⟨rfl, rfl, rfl, rfl⟩

end Ssh
end LogHarvest
