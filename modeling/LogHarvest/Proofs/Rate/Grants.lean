import Mathlib.Data.Finset.Lattice.Fold
import Mathlib.Data.List.GetD
import Mathlib.Tactic.FieldSimp
import Mathlib.Tactic.Linarith
import Mathlib.Tactic.Ring
import LogHarvest.Proofs.Rate.Cover
import LogHarvest.Rate.Timeline

/-!
# When tokens are granted

A bucket keeps one balance, brings it up to date when somebody calls, caps it and
overdraws it.  A law for the times of the grants looks at all earlier calls at
once: the token that is the `k`th to be taken is granted when it is called for,
or, if that is later, when the tokens since some earlier call have come in.

The balance has a closed form, a least one over all earlier calls, and the law
follows from it for the next take.  All amounts and times are exact.
-/

namespace LogHarvest
namespace Rate

/-- Somebody who calls for a token; without a manner, only for one that is there. -/
structure Caller where
  id : String
  time : Rat
  manner : Option Manner
deriving DecidableEq

namespace Bucket

def serve (b : Bucket Rat Rat) (caller : Caller) : Option Rat × Bucket Rat Rat :=
  match caller.manner with
  | none =>
      let (granted, b') := b.allow caller.time
      (if granted then some caller.time else none, b')
  | some .wait =>
      let (due, b') := b.reserve caller.time
      (some (due.getD caller.time), b')
  | some .acquire =>
      let (due, b') := b.acquire caller.time
      (some (due.getD caller.time), b')

def drawn (b : Bucket Rat Rat) (now : Rat) : Bucket Rat Rat :=
  { b.refill now with balance := (b.refill now).balance - 1 }

end Bucket

/-!
## The law

The grants of a schedule are in time if nobody's comes before the call and no
stretch of them holds more than the capacity and what comes in meanwhile.
-/

/-- When the tokens since an earlier call have come in. -/
def earned (qps burst : Rat) (times : List Rat) (k i : Nat) : Rat :=
  times.getD i 0 + ((k : Rat) - i + 1 - burst) / qps

/-- When the token is granted that is the `k`th to be taken, from the times of the calls. -/
def grantTime (qps burst : Rat) (times : List Rat) (k : Nat) : Rat :=
  max (times.getD k 0)
    ((Finset.range (k + 1)).sup' Finset.nonempty_range_add_one (earned qps burst times k))

/-- A schedule of grants that the bucket could pay for. -/
structure Affordable (qps burst : Rat) (times : List Rat) (grant : Nat → Rat) : Prop where
  called : ∀ k time, times[k]? = some time → time ≤ grant k
  window : ∀ i k, i ≤ k → k < times.length →
    (k : Rat) - i + 1 ≤ burst + qps * (grant k - grant i)

section Law

variable {qps burst : Rat} {times : List Rat} {k : Nat}

theorem grantTime_le_iff {time : Rat} :
    grantTime qps burst times k ≤ time ↔
      times.getD k 0 ≤ time ∧ ∀ i ≤ k, earned qps burst times k i ≤ time := by
  unfold grantTime
  rw [max_le_iff, Finset.sup'_le_iff]
  simp only [Finset.mem_range, Nat.lt_succ_iff]

theorem called_le_grantTime : times.getD k 0 ≤ grantTime qps burst times k :=
  (grantTime_le_iff.1 (le_refl _)).1

theorem earned_le_grantTime {i : Nat} (hi : i ≤ k) :
    earned qps burst times k i ≤ grantTime qps burst times k :=
  (grantTime_le_iff.1 (le_refl _)).2 i hi

theorem earned_add (hqps : 0 < qps) {i : Nat} (more : Nat) :
    earned qps burst times (k + more) i = earned qps burst times k i + more / qps := by
  unfold earned
  push_cast
  field_simp
  ring

theorem getD_le_getD (hsorted : times.Pairwise (· ≤ ·)) {i : Nat} (hi : i ≤ k)
    (hk : k < times.length) : times.getD i 0 ≤ times.getD k 0 := by
  rw [List.getD_eq_getElem _ _ hk, List.getD_eq_getElem _ _ (lt_of_le_of_lt hi hk)]
  rcases Nat.lt_or_eq_of_le hi with hless | rfl
  · exact List.pairwise_iff_getElem.1 hsorted i k _ hk hless
  · exact le_refl _

theorem grantTime_mono (hqps : 0 < qps) (hsorted : times.Pairwise (· ≤ ·)) {i : Nat} (hi : i ≤ k)
    (hk : k < times.length) : grantTime qps burst times i ≤ grantTime qps burst times k := by
  obtain ⟨more, rfl⟩ := Nat.exists_eq_add_of_le hi
  refine grantTime_le_iff.2 ⟨?_, fun j hj => ?_⟩
  · exact le_trans (getD_le_getD hsorted hi hk) called_le_grantTime
  · have hlater : 0 ≤ (more : Rat) / qps := div_nonneg (Nat.cast_nonneg more) (le_of_lt hqps)
    have hearned : earned qps burst times (i + more) j ≤ grantTime qps burst times (i + more) :=
      earned_le_grantTime (le_trans hj hi)
    rw [earned_add hqps] at hearned
    linarith

theorem affordable_grantTime (hqps : 0 < qps) (hburst : 1 ≤ burst) :
    Affordable qps burst times (grantTime qps burst times) where
  called k time htime := by
    have hcalled : times.getD k 0 ≤ grantTime qps burst times k := called_le_grantTime
    rwa [List.getD_eq_getElem?_getD, htime] at hcalled
  window i k hi hk := by
    obtain ⟨more, rfl⟩ := Nat.exists_eq_add_of_le hi
    set since := grantTime qps burst times (i + more) - ((more : Rat) + 1 - burst) / qps
      with hsince
    -- The grant of the earlier call is a time that the later one had to wait for as well.
    have hbefore : grantTime qps burst times i ≤ since := by
      refine grantTime_le_iff.2 ⟨?_, fun j hj => ?_⟩
      · have hearned : earned qps burst times (i + more) i ≤ grantTime qps burst times (i + more) :=
          earned_le_grantTime (Nat.le_add_right i more)
        unfold earned at hearned
        push_cast at hearned
        have hsame : (i : Rat) + more - i + 1 - burst = more + 1 - burst := by ring
        rw [hsame] at hearned
        linarith
      · have hearned : earned qps burst times (i + more) j ≤ grantTime qps burst times (i + more) :=
          earned_le_grantTime (le_trans hj (Nat.le_add_right i more))
        rw [earned_add hqps] at hearned
        have hless : ((more : Rat) + 1 - burst) / qps ≤ more / qps :=
          div_le_div_of_nonneg_right (by linarith) (le_of_lt hqps)
        linarith
    have hwindow : ((more : Rat) + 1 - burst) / qps ≤
        grantTime qps burst times (i + more) - grantTime qps burst times i := by linarith
    have htokens := (div_le_iff₀ hqps).1 hwindow
    push_cast
    linarith

theorem Affordable.grantTime_le {grant : Nat → Rat} (hqps : 0 < qps)
    (hgrant : Affordable qps burst times grant) (hk : k < times.length) :
    grantTime qps burst times k ≤ grant k := by
  have hcalled : ∀ i ≤ k, times.getD i 0 ≤ grant i := by
    intro i hi
    have hless := lt_of_le_of_lt hi hk
    rw [List.getD_eq_getElem _ _ hless]
    exact hgrant.called i _ (List.getElem?_eq_getElem hless)
  refine grantTime_le_iff.2 ⟨hcalled k (le_refl k), fun i hi => ?_⟩
  have hwindow := hgrant.window i k hi hk
  have hstretch : ((k : Rat) - i + 1 - burst) / qps ≤ grant k - grant i := by
    rw [div_le_iff₀ hqps]
    linarith
  have hstart := hcalled i hi
  unfold earned
  linarith

end Law

theorem grantTime_append {qps burst : Rat} {times : List Rat} {k : Nat} (hk : k < times.length)
    (more : List Rat) : grantTime qps burst (times ++ more) k = grantTime qps burst times k := by
  have hcalled : ∀ i ≤ k, (times ++ more).getD i 0 = times.getD i 0 := fun i hi =>
    List.getD_append times more 0 i (lt_of_le_of_lt hi hk)
  have hearned : ∀ i ∈ Finset.range (k + 1),
      earned qps burst (times ++ more) k i = earned qps burst times k i := by
    intro i hi
    unfold earned
    rw [hcalled i (Nat.lt_succ_iff.1 (Finset.mem_range.1 hi))]
  unfold grantTime
  rw [hcalled k (le_refl k), Finset.sup'_congr _ rfl hearned]

namespace Bucket

variable {b : Bucket Rat Rat} {now : Rat} {times : List Rat} {caller : Caller}

/-!
## The balance in a closed form
-/

theorem refill_balance (hlast : b.last ≤ now) :
    (b.refill now).balance = min b.burst (b.balance + (now - b.last) * b.qps) := by
  have hbetween : Meter.between b.last now = now - b.last := if_pos hlast
  have hcapped : (b.refill now).balance =
      capped b.burst (b.balance + (now - b.last) * b.qps) := by
    rw [← hbetween]
    rfl
  rw [hcapped]
  rcases le_or_gt (b.balance + (now - b.last) * b.qps) b.burst with hmost | hmore
  · rw [capped_of_le hmost, min_eq_right hmost]
  · rw [capped_of_lt hmore, min_eq_left (le_of_lt hmore)]

/-- What the capacity and the tokens since a call leave, after all takes from that call on. -/
def room (b : Bucket Rat Rat) (times : List Rat) (i : Nat) : Rat :=
  b.burst - ((times.length : Rat) - i) + b.qps * (b.last - times.getD i 0)

/-- The balance is the capacity or what some call leaves, whichever is least. -/
structure Settled (b : Bucket Rat Rat) (times : List Rat) : Prop where
  positive : 0 < b.qps
  capped : b.balance ≤ b.burst
  within : ∀ i < times.length, b.balance ≤ b.room times i
  attained : b.balance = b.burst ∨ ∃ i < times.length, b.balance = b.room times i

theorem settled_full {qps burst : Rat} (hqps : 0 < qps) (created : Rat) :
    (full qps burst created).Settled [] where
  positive := hqps
  capped := le_refl burst
  within i hi := absurd hi (Nat.not_lt_zero i)
  attained := .inl rfl

theorem room_refill (i : Nat) :
    (b.refill now).room times i = b.room times i + (now - b.last) * b.qps := by
  unfold room refill
  ring

theorem Settled.refill (hsettled : b.Settled times) (hlast : b.last ≤ now) :
    (b.refill now).Settled times where
  positive := hsettled.positive
  capped := by
    rw [refill_balance hlast]
    exact min_le_left _ _
  within i hi := by
    have hbefore := hsettled.within i hi
    rw [refill_balance hlast, room_refill]
    exact le_trans (min_le_right _ _) (by linarith)
  attained := by
    have hgain : 0 ≤ (now - b.last) * b.qps :=
      mul_nonneg (sub_nonneg.2 hlast) (le_of_lt hsettled.positive)
    rw [refill_balance hlast]
    rcases le_or_gt b.burst (b.balance + (now - b.last) * b.qps) with hfull | hless
    · exact .inl (min_eq_left hfull)
    · rw [min_eq_right (le_of_lt hless)]
      rcases hsettled.attained with hburst | ⟨i, hi, hroom⟩
      · linarith
      · exact .inr ⟨i, hi, by rw [room_refill, hroom]⟩

theorem room_drawn_of_lt {i : Nat} (hi : i < times.length) :
    (b.drawn now).room (times ++ [now]) i = (b.refill now).room times i - 1 := by
  unfold room
  rw [List.getD_append _ _ _ _ hi, List.length_append, List.length_singleton]
  push_cast
  unfold drawn
  ring

theorem room_drawn_length : (b.drawn now).room (times ++ [now]) times.length = b.burst - 1 := by
  unfold room
  rw [List.getD_append_right _ _ _ _ (le_refl _), Nat.sub_self, List.length_append,
    List.length_singleton]
  have hnow : [now].getD 0 0 = now := rfl
  have hlast : (b.drawn now).last = now := rfl
  have hburst : (b.drawn now).burst = b.burst := rfl
  rw [hnow, hlast, hburst]
  push_cast
  ring

theorem Settled.drawn (hsettled : b.Settled times) (hlast : b.last ≤ now) :
    (b.drawn now).Settled (times ++ [now]) := by
  have hrefilled := hsettled.refill hlast
  have hburst : (b.refill now).balance ≤ b.burst := hrefilled.capped
  refine ⟨hsettled.positive, ?_, fun i hi => ?_, .inr ?_⟩
  · change (b.refill now).balance - 1 ≤ b.burst
    linarith
  · change (b.refill now).balance - 1 ≤ _
    rw [List.length_append, List.length_singleton, Nat.lt_succ_iff] at hi
    rcases Nat.lt_or_eq_of_le hi with hless | rfl
    · have hbefore := hrefilled.within i hless
      rw [room_drawn_of_lt hless]
      linarith
    · rw [room_drawn_length]
      linarith
  · rw [List.length_append, List.length_singleton]
    rcases hrefilled.attained with hfull | ⟨i, hi, hroom⟩
    · refine ⟨times.length, Nat.lt_succ_self _, ?_⟩
      rw [room_drawn_length]
      exact congrArg (· - 1) hfull
    · refine ⟨i, Nat.lt_succ_of_lt hi, ?_⟩
      rw [room_drawn_of_lt hi]
      exact congrArg (· - 1) hroom

/-!
## Reservations mature when the law says so
-/

def matured (b : Bucket Rat Rat) : Rat :=
  b.last + -b.balance / b.qps

theorem earned_eq (hqps : 0 < b.qps) {k i : Nat} (hk : times.length = k + 1) :
    earned b.qps b.burst times k i = b.last + -b.room times i / b.qps := by
  unfold earned room
  rw [hk]
  push_cast
  field_simp
  ring

theorem Settled.grantTime_eq {k : Nat} (hsettled : b.Settled times) (hk : times.length = k + 1)
    (hlast : times.getD k 0 = b.last) (hless : b.balance < b.burst) :
    grantTime b.qps b.burst times k = max b.last b.matured := by
  have hqps := hsettled.positive
  apply le_antisymm
  · refine grantTime_le_iff.2 ⟨?_, fun i hi => ?_⟩
    · rw [hlast]
      exact le_max_left _ _
    · have hwithin := hsettled.within i (by omega)
      have hdebt : -b.room times i / b.qps ≤ -b.balance / b.qps :=
        div_le_div_of_nonneg_right (neg_le_neg hwithin) (le_of_lt hqps)
      refine le_trans ?_ (le_max_right _ _)
      rw [earned_eq hqps hk]
      unfold matured
      linarith
  · refine max_le (hlast ▸ called_le_grantTime) ?_
    rcases hsettled.attained with hfull | ⟨i, hi, hroom⟩
    · exact absurd hfull (ne_of_lt hless)
    · have hmatured : b.matured = earned b.qps b.burst times k i := by
        rw [earned_eq hqps hk, ← hroom]
        rfl
      rw [hmatured]
      exact earned_le_grantTime (by omega)

theorem grantTime_drawn (hsettled : b.Settled times) (hlast : b.last ≤ now) :
    grantTime b.qps b.burst (times ++ [now]) times.length = max now (b.drawn now).matured := by
  have hcapped : (b.refill now).balance ≤ b.burst := (hsettled.refill hlast).capped
  have hless : (b.refill now).balance - 1 < b.burst := by linarith
  have hcalled : (times ++ [now]).getD times.length 0 = now := by
    rw [List.getD_append_right _ _ _ _ (le_refl _), Nat.sub_self]
    rfl
  have hlength : (times ++ [now]).length = times.length + 1 := by simp
  exact (hsettled.drawn hlast).grantTime_eq hlength hcalled hless

/-!
## What a bucket does for a caller
-/

theorem reserve_of_paid (hpaid : 0 ≤ (b.drawn now).balance) :
    b.reserve now = (none, b.drawn now) := by
  have hmost : Meter.atMost Meter.zero ((b.refill now).balance - Meter.one) = true :=
    decide_eq_true hpaid
  unfold reserve
  dsimp only
  rw [if_pos hmost]
  rfl

theorem reserve_of_owed (howed : (b.drawn now).balance < 0) :
    b.reserve now = (some (b.drawn now).matured, b.drawn now) := by
  have hmore : ¬ Meter.atMost Meter.zero ((b.refill now).balance - Meter.one) = true :=
    fun hmost => absurd (of_decide_eq_true hmost) (not_le.2 howed)
  unfold reserve
  dsimp only
  rw [if_neg hmore]
  rfl

theorem allow_of_paid (hpaid : 0 ≤ (b.drawn now).balance) :
    b.allow now = (true, b.drawn now) := by
  have hone : Meter.atMost Meter.one (b.refill now).balance = true :=
    decide_eq_true (sub_nonneg.1 hpaid)
  unfold allow
  dsimp only
  rw [if_pos hone]
  rfl

theorem allow_of_owed (howed : (b.drawn now).balance < 0) :
    b.allow now = (false, b.refill now) := by
  have hnone : ¬ Meter.atMost Meter.one (b.refill now).balance = true :=
    fun hone => absurd (sub_nonneg.2 (of_decide_eq_true hone)) (not_le.2 howed)
  unfold allow
  dsimp only
  rw [if_neg hnone]

theorem matured_le (hqps : 0 < b.qps) (hpaid : 0 ≤ b.balance) : b.matured ≤ b.last := by
  have hnone : -b.balance / b.qps ≤ 0 :=
    div_nonpos_of_nonpos_of_nonneg (neg_nonpos.2 hpaid) (le_of_lt hqps)
  unfold matured
  linarith

theorem lt_matured (hqps : 0 < b.qps) (howed : b.balance < 0) : b.last < b.matured := by
  have hdebt : 0 < -b.balance / b.qps := div_pos (neg_pos.2 howed) hqps
  unfold matured
  linarith

theorem reserve_granted (hqps : 0 < b.qps) :
    (b.reserve now).1.getD now = max now (b.drawn now).matured ∧
      (b.reserve now).2 = b.drawn now := by
  rcases le_or_gt 0 (b.drawn now).balance with hpaid | howed
  · have hmatured : (b.drawn now).matured ≤ now := matured_le hqps hpaid
    rw [reserve_of_paid hpaid]
    exact ⟨(max_eq_left hmatured).symm, rfl⟩
  · have hmatured : now < (b.drawn now).matured := lt_matured (b := b.drawn now) hqps howed
    rw [reserve_of_owed howed]
    exact ⟨(max_eq_right (le_of_lt hmatured)).symm, rfl⟩

theorem serve_of_manner {manner : Manner} (hqps : 0 < b.qps) (hlast : b.last ≤ caller.time)
    (hmanner : caller.manner = some manner) :
    b.serve caller =
      (some (max caller.time (b.drawn caller.time).matured), b.drawn caller.time) := by
  obtain ⟨hdue, hdrawn⟩ := @reserve_granted b caller.time hqps
  unfold serve
  rw [hmanner]
  cases manner with
  | wait => exact Prod.ext (congrArg some hdue) hdrawn
  | acquire =>
      dsimp only
      rw [acquire_eq_reserve hqps hlast]
      exact Prod.ext (congrArg some hdue) hdrawn

theorem cases_of_serve (hqps : 0 < b.qps) (hlast : b.last ≤ caller.time) :
    (caller.manner = none ∧ (b.drawn caller.time).balance < 0 ∧
        b.serve caller = (none, b.refill caller.time)) ∨
      ((caller.manner = none → 0 ≤ (b.drawn caller.time).balance) ∧
        b.serve caller =
          (some (max caller.time (b.drawn caller.time).matured), b.drawn caller.time)) := by
  cases hmanner : caller.manner with
  | some manner => exact .inr ⟨nofun, serve_of_manner hqps hlast hmanner⟩
  | none =>
      unfold serve
      rw [hmanner]
      rcases le_or_gt 0 (b.drawn caller.time).balance with hpaid | howed
      · have hmatured : (b.drawn caller.time).matured ≤ caller.time := matured_le hqps hpaid
        rw [allow_of_paid hpaid, max_eq_left hmatured]
        exact .inr ⟨fun _ => hpaid, rfl⟩
      · rw [allow_of_owed howed]
        exact .inl ⟨rfl, howed, rfl⟩

end Bucket
end Rate
end LogHarvest
