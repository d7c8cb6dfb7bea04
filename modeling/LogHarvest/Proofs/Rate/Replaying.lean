import Mathlib.Tactic.Linarith
import LogHarvest.Proofs.Rate.Queueing

/-!
# What cancelled waits leave behind

A reservation that is handed back has lowered the balance for a while, and the cap may
have applied meanwhile or applies to the token that comes back.  Compared with a bucket
from which the kept tokens were taken at the same times, and no others, nothing is lost
by that: whoever calls later finds at least as much (`noLess_of_reaches`).

The two buckets are compared by how many tokens the one can be ahead of the other
(`Bucket.Within`).  A token less that was taken puts a bucket ahead by at most one, and
to hand a token back makes good for one.
-/

namespace LogHarvest
namespace Rate

namespace Bucket

def replay (b : Bucket Rat Rat) (times : List Rat) : Bucket Rat Rat :=
  times.foldl drawn b

/-- From now on the first bucket is ahead of the second by at most so many tokens. -/
structure Within (b b' : Bucket Rat Rat) (now more : Rat) : Prop where
  qps : b.qps = b'.qps
  burst : b.burst = b'.burst
  last : b.last ≤ now
  last' : b'.last ≤ now
  balance : (b.refill now).balance ≤ (b'.refill now).balance + more

/-- Whoever calls from now on finds at least as much in the first bucket as in the second. -/
structure NoLess (b b' : Bucket Rat Rat) (now : Rat) : Prop where
  balance : ∀ time, now ≤ time → (b'.refill time).balance ≤ (b.refill time).balance
  /-- Whoever would get a token from the second gets one from the first. -/
  allow : ∀ time, now ≤ time → (b'.allow time).1 = true → (b.allow time).1 = true
  /-- Whoever reserves does not wait any longer. -/
  reserve : ∀ time, now ≤ time → (b.reserve time).1.getD time ≤ (b'.reserve time).1.getD time

variable {b b' : Bucket Rat Rat} {now time more : Rat}

theorem within_self (hlast : b.last ≤ now) : b.Within b now 0 :=
  ⟨rfl, rfl, hlast, hlast, le_of_eq (add_zero _).symm⟩

theorem Within.trans {c : Bucket Rat Rat} {rest : Rat} (hfirst : b.Within b' now more)
    (hsecond : b'.Within c now rest) : b.Within c now (more + rest) where
  qps := hfirst.qps.trans hsecond.qps
  burst := hfirst.burst.trans hsecond.burst
  last := hfirst.last
  last' := hsecond.last'
  balance := by
    have hle := hfirst.balance
    have hle' := hsecond.balance
    linarith

/-- What comes in later comes in for both, and the cap only takes from what is ahead. -/
theorem Within.later (hwithin : b.Within b' now more) (hqps : 0 < b.qps) (hmore : 0 ≤ more)
    (htime : now ≤ time) : b.Within b' time more where
  qps := hwithin.qps
  burst := hwithin.burst
  last := le_trans hwithin.last htime
  last' := le_trans hwithin.last' htime
  balance := by
    have hqps' : 0 < b'.qps := hwithin.qps ▸ hqps
    have hnow : (b.refill now).last ≤ time := htime
    have hnow' : (b'.refill now).last ≤ time := htime
    rw [← refill_refill hqps hwithin.last htime, ← refill_refill hqps' hwithin.last' htime,
      refill_balance hnow, refill_balance hnow']
    change min b.burst ((b.refill now).balance + (time - now) * b.qps) ≤
      min b'.burst ((b'.refill now).balance + (time - now) * b'.qps) + more
    rw [hwithin.burst, hwithin.qps, ← min_add_add_right]
    have hle := hwithin.balance
    exact min_le_min (by linarith) (by linarith)

theorem refill_drawn_balance (hlast : b.last ≤ now) :
    ((b.drawn now).refill now).balance = (b.refill now).balance - 1 := by
  have hnow : (b.drawn now).last ≤ now := le_refl now
  have hcapped := refill_balance_le hlast
  rw [refill_balance hnow]
  change min b.burst ((b.refill now).balance - 1 + (now - now) * b.qps) = _
  rw [sub_self, zero_mul, add_zero]
  exact min_eq_right (by linarith)

theorem Within.drawn (hwithin : b.Within b' now more) :
    (b.drawn now).Within (b'.drawn now) now more where
  qps := hwithin.qps
  burst := hwithin.burst
  last := le_refl now
  last' := le_refl now
  balance := by
    have hle := hwithin.balance
    rw [refill_drawn_balance hwithin.last, refill_drawn_balance hwithin.last']
    linarith

theorem Within.refill (hwithin : b.Within b' now more) (hqps : 0 < b.qps) :
    b.Within (b'.refill now) now more where
  qps := hwithin.qps
  burst := hwithin.burst
  last := hwithin.last
  last' := le_refl now
  balance := by
    rw [refill_refill (hwithin.qps ▸ hqps) hwithin.last' (le_refl now)]
    exact hwithin.balance

theorem within_drawn (hlast : b.last ≤ now) : b.Within (b.drawn now) now 1 where
  qps := rfl
  burst := rfl
  last := hlast
  last' := le_refl now
  balance := by
    rw [refill_drawn_balance hlast]
    linarith

theorem Within.handBack (hwithin : b.Within b' now 1) : b.Within (b'.handBack now) now 0 where
  qps := hwithin.qps
  burst := hwithin.burst
  last := hwithin.last
  last' := le_refl now
  balance := by
    have hnow : (b'.handBack now).last ≤ now := le_refl now
    have hcapped := refill_balance_le hwithin.last
    have hle := hwithin.balance
    rw [refill_balance hnow]
    change _ ≤ min b'.burst ((b'.handBack now).balance + (now - now) * b'.qps) + 0
    rw [sub_self, zero_mul, add_zero, add_zero, handBack_balance, ← min_assoc, min_self,
      ← hwithin.burst]
    exact le_min hcapped hle

theorem Within.noLess (hwithin : b'.Within b now 0) (hqps : 0 < b'.qps) : b.NoLess b' now := by
  have hbalance : ∀ time, now ≤ time → (b'.refill time).balance ≤ (b.refill time).balance := by
    intro time htime
    have hle := (hwithin.later hqps (le_refl 0) htime).balance
    rwa [add_zero] at hle
  refine ⟨hbalance, fun time htime hallow => ?_, fun time htime => ?_⟩
  · have hle := hbalance time htime
    rcases le_or_gt 0 (b'.drawn time).balance with hpaid | howed
    · have hpaid' : 0 ≤ (b.drawn time).balance := le_trans hpaid (sub_le_sub_right hle 1)
      rw [allow_of_paid hpaid']
    · rw [allow_of_owed howed] at hallow
      cases hallow
  · have hle := hbalance time htime
    have hqps' : 0 < b.qps := hwithin.qps ▸ hqps
    have hmatured : (b.drawn time).matured ≤ (b'.drawn time).matured := by
      change time + -((b.refill time).balance - 1) / b.qps ≤
        time + -((b'.refill time).balance - 1) / b'.qps
      rw [hwithin.qps]
      exact add_le_add (le_refl time)
        (div_le_div_of_nonneg_right (by linarith) (le_of_lt hqps'))
    rw [(@reserve_granted b time hqps').1, (@reserve_granted b' time hqps).1]
    exact max_le_max (le_refl time) hmatured

/-!
## Tokens that are not taken
-/

theorem replay_settings (b : Bucket Rat Rat) (times : List Rat) :
    (b.replay times).qps = b.qps ∧ (b.replay times).burst = b.burst := by
  unfold replay
  induction times generalizing b with
  | nil => exact ⟨rfl, rfl⟩
  | cons time rest ih => exact ih (b.drawn time)

theorem replay_append (b : Bucket Rat Rat) (front back : List Rat) :
    b.replay (front ++ back) = (b.replay front).replay back :=
  List.foldl_append

def Amid (start : Rat) (times : List Rat) (now : Rat) : Prop :=
  start ≤ now ∧ (∀ time ∈ times, start ≤ time ∧ time ≤ now) ∧ times.Pairwise (· ≤ ·)

theorem Amid.tail {start : Rat} {times : List Rat} (hamid : Amid start (time :: times) now) :
    Amid time times now := by
  obtain ⟨-, hbounds, hsorted⟩ := hamid
  obtain ⟨hfirst, hrest⟩ := List.pairwise_cons.1 hsorted
  exact ⟨(hbounds time List.mem_cons_self).2,
    fun later hlater => ⟨hfirst later hlater, (hbounds later (List.mem_cons_of_mem _ hlater)).2⟩,
    hrest⟩

theorem Within.replay {times : List Rat} (hwithin : b.Within b' now more) (hqps : 0 < b.qps)
    (hmore : 0 ≤ more) (hamid : Amid now times time) :
    (b.replay times).Within (b'.replay times) time more := by
  induction times generalizing b b' now with
  | nil => exact hwithin.later hqps hmore hamid.1
  | cons next rest ih =>
      have hnext := hwithin.later hqps hmore (hamid.2.1 next List.mem_cons_self).1
      exact ih hnext.drawn hqps hamid.tail

theorem Amid.sublist {start : Rat} {times kept : List Rat} (hamid : Amid start times now)
    (hkept : kept.Sublist times) : Amid start kept now :=
  ⟨hamid.1, fun later hlater => hamid.2.1 later (hkept.subset hlater), hamid.2.2.sublist hkept⟩

theorem Amid.split {start : Rat} {front back : List Rat}
    (hamid : Amid start (front ++ time :: back) now) :
    Amid start front time ∧ Amid time back now := by
  obtain ⟨-, hbounds, hsorted⟩ := hamid
  obtain ⟨hfront, hrest, hacross⟩ := List.pairwise_append.1 hsorted
  obtain ⟨hfirst, hback⟩ := List.pairwise_cons.1 hrest
  have htime := hbounds time (List.mem_append_right front List.mem_cons_self)
  refine ⟨⟨htime.1, fun earlier hearlier => ⟨?_, ?_⟩, hfront⟩,
    ⟨htime.2, fun later hlater => ⟨hfirst later hlater, ?_⟩, hback⟩⟩
  · exact (hbounds earlier (List.mem_append_left _ hearlier)).1
  · exact hacross earlier hearlier time List.mem_cons_self
  · exact (hbounds later (List.mem_append_right _ (List.mem_cons_of_mem _ hlater))).2

theorem Amid.last_replay {times : List Rat} (hamid : Amid b.last times now) :
    (b.replay times).last ≤ now := by
  induction times generalizing b with
  | nil => exact hamid.1
  | cons next rest ih => exact ih (b := b.drawn next) hamid.tail

/-- One take less among many puts a bucket ahead by at most one token. -/
theorem within_without {front back : List Rat} (hqps : 0 < b.qps)
    (hamid : Amid b.last (front ++ time :: back) now) :
    (b.replay (front ++ back)).Within (b.replay (front ++ time :: back)) now 1 := by
  obtain ⟨hfront, hback⟩ := hamid.split
  rw [replay_append, replay_append]
  have hahead : (b.replay front).Within ((b.replay front).drawn time) time 1 :=
    within_drawn hfront.last_replay
  exact hahead.replay ((b.replay_settings front).1 ▸ hqps) (by norm_num) hback

end Bucket

/-!
## What was handed back
-/

namespace Crowd

variable {s s' : Crowd} {take : Take} {token : Nat} {qps burst created : Rat}

def keptTimes (s : Crowd) : List Rat :=
  (s.takes.filter fun take => !take.fate.isReturned).map Take.time

def grantedTimes (s : Crowd) : List Rat :=
  (s.takes.filter fun take => take.fate == .granted).map Take.time

structure Replayed (qps burst created : Rat) (s : Crowd) : Prop where
  amid : Bucket.Amid created (s.takes.map Take.time) s.now
  within : ((Bucket.full qps burst created).replay s.keptTimes).Within s.bucket s.now 0
  capped : s.bucket.balance ≤ s.bucket.burst

theorem keptTimes_took (s : Crowd) (due : Option Rat) :
    (s.took due).keptTimes = s.keptTimes ++ [s.now] := by
  change ((s.takes ++ [_]).filter _).map Take.time = _
  rw [List.filter_append, List.map_append]
  cases due <;> rfl

theorem keptTimes_settled (htake : s.takes[token]? = some take) (hpending : take.fate = .pending)
    (fate : Fate) :
    ∃ front back, s.keptTimes = front ++ take.time :: back ∧
      (s.settled token take fate).keptTimes =
        front ++ if fate.isReturned then back else take.time :: back := by
  obtain ⟨front, back, -, htakes, hsettled⟩ := takes_settled htake fate
  refine ⟨(front.filter fun take => !take.fate.isReturned).map Take.time,
    (back.filter fun take => !take.fate.isReturned).map Take.time, ?_, ?_⟩
  · have hkept : (!take.fate.isReturned) = true := by rw [hpending]; rfl
    have hcons : (take :: back).filter (fun take => !take.fate.isReturned) =
        take :: back.filter fun take => !take.fate.isReturned := List.filter_cons_of_pos hkept
    rw [keptTimes, htakes, List.filter_append, hcons, List.map_append, List.map_cons]
  · rw [keptTimes, hsettled, List.filter_append, List.map_append, List.filter_cons]
    cases fate.isReturned <;> rfl

theorem keptTimes_sublist (s : Crowd) : s.keptTimes.Sublist (s.takes.map Take.time) :=
  List.filter_sublist.map Take.time

theorem replayed_start (qps burst created : Rat) :
    (start (.full qps burst created)).Replayed qps burst created where
  amid := ⟨le_refl created, nofun, .nil⟩
  within := Bucket.within_self (le_refl created)
  capped := le_refl burst

theorem Replayed.of_change (hreplayed : s.Replayed qps burst created) (hqps : 0 < qps)
    (hchange : Change s s') : s'.Replayed qps burst created := by
  obtain ⟨hamid, hwithin, hcapped⟩ := hreplayed
  have hrefilled := Bucket.refill_balance_le hwithin.last'
  have hrate : 0 < ((Bucket.full qps burst created).replay s.keptTimes).qps := by
    rw [(Bucket.replay_settings _ s.keptTimes).1]
    exact hqps
  cases hchange with
  | passed htime =>
      refine ⟨⟨le_trans hamid.1 htime, fun time hmem => ?_, hamid.2.2⟩,
        hwithin.later hrate (le_refl 0) htime, hcapped⟩
      exact ⟨(hamid.2.1 time hmem).1, le_trans (hamid.2.1 time hmem).2 htime⟩
  | dated => exact ⟨hamid, hwithin.refill hrate, hrefilled⟩
  | taken =>
      refine ⟨?_, ?_, ?_⟩
      · change Bucket.Amid created ((s.takes ++ [_]).map Take.time) s.now
        rw [List.map_append, List.map_singleton]
        refine ⟨hamid.1, fun time hmem => ?_, List.pairwise_append.2
          ⟨hamid.2.2, List.pairwise_singleton _ _, fun time hmem now hnow => ?_⟩⟩
        · rcases List.mem_append.1 hmem with hold | hnew
          · exact hamid.2.1 time hold
          · rw [List.mem_singleton.1 hnew]
            exact ⟨hamid.1, le_refl _⟩
        · rw [List.mem_singleton.1 hnow]
          exact (hamid.2.1 time hmem).2
      · rw [keptTimes_took, Bucket.replay_append]
        exact hwithin.drawn
      · change (s.bucket.refill s.now).balance - 1 ≤ s.bucket.burst
        linarith
  | matured htake hpending =>
      obtain ⟨front, back, hbefore, hafter⟩ := keptTimes_settled htake hpending .granted
      have hsame : (s.settled _ _ .granted).keptTimes = s.keptTimes := hafter.trans hbefore.symm
      refine ⟨?_, ?_, hcapped⟩
      · rw [map_settled (f := Take.time) htake .granted rfl]
        exact hamid
      · rw [hsame]
        exact hwithin
  | @returned token take htake hpending =>
      -- The replay does without the token, which puts it ahead by one; so does handing back.
      obtain ⟨front, back, hbefore, hafter⟩ :=
        keptTimes_settled htake hpending (.returned s.takes.length)
      have hless : ((s.turned (s.bucket.handBack s.now) (s.bucket.excessBack s.now)).settled token
          take (.returned s.takes.length)).keptTimes = front ++ back := hafter
      refine ⟨?_, ?_, ?_⟩
      · rw [map_settled (s := s.turned _ _) (f := Take.time) htake (.returned s.takes.length) rfl]
        exact hamid
      · have hahead := Bucket.within_without (b := Bucket.full qps burst created) hqps
          (hbefore ▸ hamid.sublist s.keptTimes_sublist)
        rw [← hbefore] at hahead
        rw [hless]
        have htotal := hahead.trans hwithin
        rw [add_zero] at htotal
        exact htotal.handBack
      · change (s.bucket.handBack s.now).balance ≤ s.bucket.burst
        rw [Bucket.handBack_balance]
        exact min_le_left _ _

theorem replayed_of_reaches (hqps : 0 < qps)
    (hreach : (start (.full qps burst created)).Reaches s) : s.Replayed qps burst created := by
  induction hreach with
  | here => exact replayed_start qps burst created
  | act hbefore hstep ih =>
      have hbooked := booked_of_reaches hqps hbefore
      exact ih.of_change hqps (change_of_step (by rw [hbooked.rate]; exact hqps) hbooked.last hstep)

theorem keptTimes_eq (hended : ∀ take ∈ s.takes, take.fate ≠ .pending) :
    s.keptTimes = s.grantedTimes := by
  unfold keptTimes grantedTimes
  refine congrArg (List.map Take.time) (List.filter_congr fun take hmem => ?_)
  have hfate := hended take hmem
  cases hcase : take.fate with
  | granted => rfl
  | pending => exact absurd hcase hfate
  | returned after => rfl

/-- Waits that were called off leave later callers no less than if nobody had waited. -/
theorem noLess_of_reaches (hqps : 0 < qps)
    (hreach : (start (.full qps burst created)).Reaches s)
    (hended : ∀ take ∈ s.takes, take.fate ≠ .pending) :
    s.bucket.NoLess ((Bucket.full qps burst created).replay s.grantedTimes) s.now ∧
      s.bucket.balance ≤ burst ∧
        ∀ time, s.now ≤ time → (s.bucket.refill time).balance ≤ burst := by
  have hbooked := booked_of_reaches hqps hreach
  obtain ⟨-, hwithin, hcapped⟩ := replayed_of_reaches hqps hreach
  rw [keptTimes_eq hended] at hwithin
  have hrate : 0 < ((Bucket.full qps burst created).replay s.grantedTimes).qps := by
    rw [(Bucket.replay_settings _ s.grantedTimes).1]
    exact hqps
  refine ⟨hwithin.noLess hrate, by rw [← hbooked.capacity]; exact hcapped, fun time htime => ?_⟩
  rw [← hbooked.capacity]
  exact Bucket.refill_balance_le (le_trans hbooked.last htime)

def quitting : List Act :=
  [.allow, .ask .acquire false, .ask .wait false, .ask .wait false, .ask .wait false, .giveUp 2,
    .ask .wait true, .tick 1, .giveUp 3, .tick 5, .mature 4, .allow]

theorem noLess_quitting :
    ∃ s, (start (.full 1 2 0)).steps quitting = some s ∧
      s.takes.map Take.fate =
        [.granted, .granted, .returned 5, .returned 5, .granted, .granted] ∧
      s.grantedTimes = [0, 0, 0, 5] ∧ (∀ take ∈ s.takes, take.fate ≠ .pending) ∧
        s.bucket.NoLess ((Bucket.full 1 2 0).replay s.grantedTimes) s.now ∧
          s.bucket.balance ≤ 2 ∧ ∀ time, s.now ≤ time → (s.bucket.refill time).balance ≤ 2 := by
  have hrun : ((start (.full 1 2 0)).steps quitting).map (fun s =>
      (s.takes.map Take.fate, s.grantedTimes, decide (∀ take ∈ s.takes, take.fate ≠ .pending))) =
      some ([.granted, .granted, .returned 5, .returned 5, .granted, .granted], [0, 0, 0, 5],
        true) := by
    decide +kernel
  obtain ⟨s, hsteps, hends⟩ := Option.map_eq_some_iff.1 hrun
  obtain ⟨hfates, hrest⟩ := Prod.mk.inj hends
  obtain ⟨htimes, hended⟩ := Prod.mk.inj hrest
  exact ⟨s, hsteps, hfates, htimes, of_decide_eq_true hended,
    noLess_of_reaches (by decide +kernel) (reaches_of_steps hsteps) (of_decide_eq_true hended)⟩

end Crowd
end Rate
end LogHarvest
