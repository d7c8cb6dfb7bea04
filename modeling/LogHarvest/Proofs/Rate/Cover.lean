import Mathlib.Tactic.Linarith
import Mathlib.Tactic.Ring
import LogHarvest.Rate.Bucket

/-!
# What a bucket has given away

A bucket covers a number of tokens that were taken from it, since a time, if its
balance and these tokens make up no more than its capacity and what has come in
since then.  The balance may be negative: what was reserved is among the tokens.

Refilling keeps this, and every token that is taken or handed back is accounted
for.  All amounts and times are exact.
-/

namespace LogHarvest
namespace Rate

/-- The balance and the tokens taken since `created` come to no more than there has been. -/
structure Bucket.Covers (b : Bucket Rat Rat) (created : Rat) (taken : Nat) : Prop where
  positive : 0 < b.qps
  balance : b.balance + taken ≤ b.burst + b.qps * (b.last - created)

structure Bucket.Dated (b b' : Bucket Rat Rat) (now : Rat) : Prop where
  qps : b'.qps = b.qps
  burst : b'.burst = b.burst
  last : b'.last = now

namespace Bucket

variable {b b' : Bucket Rat Rat} {created now : Rat} {taken : Nat}

theorem capped_le (burst amount : Rat) : capped burst amount ≤ amount := by
  unfold capped
  split
  · exact le_refl amount
  · rename_i hmore
    have hless : ¬ amount ≤ burst := fun hmost => hmore (decide_eq_true hmost)
    exact le_of_lt (not_le.1 hless)

theorem capped_of_le {burst amount : Rat} (hmost : amount ≤ burst) :
    capped burst amount = amount :=
  if_pos (decide_eq_true hmost)

theorem capped_of_lt {burst amount : Rat} (hmore : burst < amount) :
    capped burst amount = burst :=
  if_neg fun hmost => absurd (of_decide_eq_true hmost) (not_le.2 hmore)

/-!
## Probes

A probe that finds no token only brings the balance up to date, which whatever
comes next does anyhow.  So it makes no difference when the probe is made, and to
probe and to reserve comes to the same as to reserve.
-/

theorem refill_refill {later : Rat} (hqps : 0 < b.qps) (hlast : b.last ≤ now)
    (hlater : now ≤ later) :
    (b.refill now).refill later = b.refill later := by
  have hfirst : Meter.between b.last now = now - b.last := if_pos hlast
  have hsecond : Meter.between now later = later - now := if_pos hlater
  have hboth : Meter.between b.last later = later - b.last := if_pos (le_trans hlast hlater)
  have hgain : 0 ≤ (later - now) * b.qps :=
    mul_nonneg (sub_nonneg.2 hlater) (le_of_lt hqps)
  have hsum : b.balance + (now - b.last) * b.qps + (later - now) * b.qps =
      b.balance + (later - b.last) * b.qps := by ring
  have hbalance : capped b.burst
      (capped b.burst (b.balance + (now - b.last) * b.qps) + (later - now) * b.qps) =
        capped b.burst (b.balance + (later - b.last) * b.qps) := by
    by_cases hmost : b.balance + (now - b.last) * b.qps ≤ b.burst
    · rw [capped_of_le hmost, hsum]
    · have hmore := not_le.1 hmost
      rw [capped_of_lt hmore]
      have htotal : b.burst < b.balance + (later - b.last) * b.qps := by linarith
      rw [capped_of_lt htotal]
      by_cases hnone : b.burst + (later - now) * b.qps ≤ b.burst
      · rw [capped_of_le hnone]
        linarith
      · exact capped_of_lt (not_le.1 hnone)
  unfold refill
  dsimp only
  rw [hfirst, hsecond, hboth, hbalance]

/-- After a probe that found no token a bucket does all that it would have done without it. -/
theorem same_after_probe {later : Rat} (hqps : 0 < b.qps) (hlast : b.last ≤ now)
    (hallow : b.allow now = (false, b')) (hlater : now ≤ later) :
    b'.allow later = b.allow later ∧ b'.reserve later = b.reserve later ∧
      b'.handBack later = b.handBack later := by
  have hprobe : b' = b.refill now := by
    unfold Bucket.allow at hallow
    dsimp only at hallow
    split at hallow
    · cases hallow
    · cases hallow
      rfl
  have hsame := refill_refill hqps hlast hlater
  rw [hprobe]
  unfold Bucket.allow Bucket.reserve Bucket.handBack
  rw [hsame]
  exact ⟨rfl, rfl, rfl⟩

theorem acquire_eq_reserve (hqps : 0 < b.qps) (hlast : b.last ≤ now) :
    b.acquire now = b.reserve now := by
  unfold Bucket.acquire
  cases hallow : b.allow now with
  | mk found bucket =>
      cases found with
      | false => exact (same_after_probe hqps hlast hallow (le_refl now)).2.1
      | true =>
          unfold Bucket.allow at hallow
          dsimp only at hallow
          split at hallow
          · rename_i htoken
            cases hallow
            have hone : (1 : Rat) ≤ (b.refill now).balance := of_decide_eq_true htoken
            have hpaid : Meter.atMost Meter.zero ((b.refill now).balance - Meter.one) = true :=
              decide_eq_true (sub_nonneg.2 hone)
            unfold Bucket.reserve
            dsimp only
            rw [if_pos hpaid]
          · cases hallow

/-!
## Tokens come in
-/

theorem covers_full {qps burst : Rat} (hqps : 0 < qps) (created : Rat) :
    (full qps burst created).Covers created 0 where
  positive := hqps
  balance := by
    simp only [full, sub_self, mul_zero, Nat.cast_zero]
    exact le_refl _

theorem dated_refill (b : Bucket Rat Rat) (now : Rat) : b.Dated (b.refill now) now :=
  ⟨rfl, rfl, rfl⟩

theorem Covers.refill (hcovers : b.Covers created taken) (hlast : b.last ≤ now) :
    (b.refill now).Covers created taken where
  positive := hcovers.positive
  balance := by
    have hbetween : Meter.between b.last now = now - b.last := if_pos hlast
    have hcapped : (b.refill now).balance ≤ b.balance + (now - b.last) * b.qps := by
      rw [← hbetween]
      exact capped_le _ _
    have hbefore := hcovers.balance
    calc
      (b.refill now).balance + taken
          ≤ b.balance + taken + (now - b.last) * b.qps := by linarith
      _ ≤ b.burst + b.qps * (b.last - created) + (now - b.last) * b.qps := by linarith
      _ = b.burst + b.qps * (now - created) := by ring

theorem Covers.take (hcovers : b.Covers created taken) :
    ({ b with balance := b.balance - Meter.one } : Bucket Rat Rat).Covers created (taken + 1) where
  positive := hcovers.positive
  balance := by
    have hone : (Meter.one : Rat) = 1 := rfl
    have hbefore := hcovers.balance
    push_cast
    rw [hone]
    linarith

/-!
## Tokens are taken
-/

theorem Covers.not_allow (hcovers : b.Covers created taken) (hlast : b.last ≤ now)
    (hallow : b.allow now = (false, b')) : b'.Covers created taken ∧ b.Dated b' now := by
  unfold Bucket.allow at hallow
  dsimp only at hallow
  split at hallow
  · cases hallow
  · cases hallow
    exact ⟨hcovers.refill hlast, dated_refill b now⟩

theorem Covers.reserve {due : Option Rat} (hcovers : b.Covers created taken) (hlast : b.last ≤ now)
    (hreserve : b.reserve now = (due, b')) :
    b'.Covers created (taken + 1) ∧ b.Dated b' now ∧
      ((due = none ∧ 0 ≤ b'.balance) ∨ due = some (now + -b'.balance / b.qps)) := by
  unfold Bucket.reserve at hreserve
  dsimp only at hreserve
  cases hreserve
  refine ⟨(hcovers.refill hlast).take, ⟨rfl, rfl, rfl⟩, ?_⟩
  split
  · rename_i hpaid
    exact Or.inl ⟨rfl, of_decide_eq_true hpaid⟩
  · exact Or.inr rfl

theorem Covers.acquire {due : Option Rat} (hcovers : b.Covers created taken) (hlast : b.last ≤ now)
    (hacquire : b.acquire now = (due, b')) :
    b'.Covers created (taken + 1) ∧ b.Dated b' now ∧
      ((due = none ∧ 0 ≤ b'.balance) ∨ due = some (now + -b'.balance / b.qps)) := by
  rw [acquire_eq_reserve hcovers.positive hlast] at hacquire
  exact hcovers.reserve hlast hacquire

theorem Covers.handBack (hcovers : b.Covers created (taken + 1)) (hlast : b.last ≤ now) :
    (b.handBack now).Covers created taken ∧ b.Dated (b.handBack now) now := by
  refine ⟨⟨hcovers.positive, ?_⟩, ⟨rfl, rfl, rfl⟩⟩
  have hrefill := (hcovers.refill hlast).balance
  have hcapped : (b.handBack now).balance ≤ (b.refill now).balance + 1 := capped_le _ _
  push_cast at hrefill
  change (b.handBack now).balance + taken ≤ (b.refill now).burst +
    (b.refill now).qps * ((b.refill now).last - created)
  linarith

/-!
## How many tokens there can have been
-/

/-- With a balance that is not negative, all tokens had come in by the time. -/
theorem Covers.taken_le (hcovers : b.Covers created taken) (hbalance : 0 ≤ b.balance) :
    (taken : Rat) ≤ b.burst + b.qps * (b.last - created) := by
  have hbefore := hcovers.balance
  linarith

theorem Covers.taken_le_due (hcovers : b.Covers created taken) :
    (taken : Rat) ≤ b.burst + b.qps * (b.last + -b.balance / b.qps - created) := by
  have hbefore := hcovers.balance
  have hdebt : b.qps * (-b.balance / b.qps) = -b.balance :=
    mul_div_cancel₀ _ (ne_of_gt hcovers.positive)
  calc
    (taken : Rat) ≤ b.burst + b.qps * (b.last - created) + -b.balance := by linarith
    _ = b.burst + b.qps * (b.last - created) + b.qps * (-b.balance / b.qps) := by rw [hdebt]
    _ = b.burst + b.qps * (b.last + -b.balance / b.qps - created) := by ring

end Bucket
end Rate
end LogHarvest
