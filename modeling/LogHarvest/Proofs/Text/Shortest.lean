import LogHarvest.Proofs.Text.Digits
import Mathlib.Algebra.Order.Field.Rat
import Mathlib.Algebra.Order.Field.Power
import Mathlib.Tactic.FieldSimp
import Mathlib.Tactic.Linarith
import Mathlib.Tactic.NormNum
import Mathlib.Tactic.Positivity
import Mathlib.Tactic.Zify

/-!
# The search for the shortest digits

The search compares whole numbers; what they stand for are the rational numbers
`Decimal.worth` and `Binary.worth`.  A decimal that the search comes up with lies in
the interval of the numbers that are rounded to the given one, because the grids get
finer than the interval before the search is given up.
-/

namespace LogHarvest
namespace Text

def Decimal.worth (d : Decimal) : ℚ :=
  d.digits * (10 : ℚ) ^ d.exponent

namespace Binary

def worth (b : Binary) : ℚ :=
  b.mantissa * (2 : ℚ) ^ b.exponent

def lower (b : Binary) : ℚ :=
  (4 * b.mantissa - (if b.atStep then 1 else 2)) * (2 : ℚ) ^ (b.exponent - 2)

def upper (b : Binary) : ℚ :=
  (4 * b.mantissa + 2) * (2 : ℚ) ^ (b.exponent - 2)

/-- A rational number is rounded to the number; of the ends if the mantissa is even. -/
def Rounds (b : Binary) (v : ℚ) : Prop :=
  b.lower ≤ v ∧ v ≤ b.upper ∧ (b.mantissa % 2 ≠ 0 → v ≠ b.lower ∧ v ≠ b.upper)

structure Proper (b : Binary) : Prop where
  pos : 0 < b.mantissa
  small : b.mantissa < 2 ^ 53
  least : -1074 ≤ b.exponent
  greatest : b.exponent ≤ 971
  normal : b.mantissa < 2 ^ 52 → b.exponent = -1074
  step : b.atStep = true ↔ b.mantissa = 2 ^ 52 ∧ b.exponent ≠ -1074

/-!
## Comparing
-/

theorem powerParts_pos {base : Nat} (hbase : 0 < base) (e : Int) :
    0 < (powerParts base e).1 ∧ 0 < (powerParts base e).2 := by
  unfold powerParts
  split
  · exact ⟨Nat.pow_pos hbase, Nat.one_pos⟩
  · exact ⟨Nat.one_pos, Nat.pow_pos hbase⟩

theorem powerParts_eq {base : Nat} (hbase : 0 < base) (e : Int) :
    ((powerParts base e).1 : ℚ) = (base : ℚ) ^ e * (powerParts base e).2 := by
  have hne : (base : ℚ) ≠ 0 := by exact_mod_cast hbase.ne'
  unfold powerParts
  split
  · rename_i hsign
    lift e to ℕ using hsign
    simp
  · rename_i hsign
    obtain ⟨n, rfl⟩ : ∃ n : ℕ, e = -n := ⟨(-e).toNat, by omega⟩
    simp [hne]

theorem exists_scale (b : Binary) (k : Int) :
    ∃ s : ℚ, 0 < s ∧ ((b.scales k).1 : ℚ) = (10 : ℚ) ^ k * s ∧
      ((b.scales k).2 : ℚ) = (2 : ℚ) ^ (b.exponent - 2) * s := by
  obtain ⟨-, hten⟩ := powerParts_pos (show 0 < 10 by decide) k
  obtain ⟨-, htwo⟩ := powerParts_pos (show 0 < 2 by decide) (b.exponent - 2)
  have heten := powerParts_eq (show 0 < 10 by decide) k
  have hetwo := powerParts_eq (show 0 < 2 by decide) (b.exponent - 2)
  refine ⟨(powerParts 2 (b.exponent - 2)).2 * (powerParts 10 k).2, by positivity, ?_, ?_⟩
  · unfold scales
    push_cast at heten ⊢
    rw [heten]
    ring
  · unfold scales
    push_cast at hetwo ⊢
    rw [hetwo]
    ring

theorem exists_scaled (b : Binary) (k : Int) (q c : Nat) :
    ∃ s : ℚ, 0 < s ∧
      ((q * (b.scales k).2 : ℕ) : ℚ) = q * (2 : ℚ) ^ (b.exponent - 2) * s ∧
      ((c * (b.scales k).1 : ℕ) : ℚ) = c * (10 : ℚ) ^ k * s := by
  obtain ⟨s, hs, hdec, hbin⟩ := b.exists_scale k
  exact ⟨s, hs, by rw [Nat.cast_mul, hbin, mul_assoc], by rw [Nat.cast_mul, hdec, mul_assoc]⟩

theorem scaled_le_iff (b : Binary) (k : Int) (q c : Nat) :
    q * (b.scales k).2 ≤ c * (b.scales k).1 ↔
      (q : ℚ) * (2 : ℚ) ^ (b.exponent - 2) ≤ c * (10 : ℚ) ^ k := by
  obtain ⟨s, hs, hbin, hdec⟩ := b.exists_scaled k q c
  rw [← Nat.cast_le (α := ℚ), hbin, hdec]
  exact mul_le_mul_iff_left₀ hs

theorem le_scaled_iff (b : Binary) (k : Int) (q c : Nat) :
    c * (b.scales k).1 ≤ q * (b.scales k).2 ↔
      c * (10 : ℚ) ^ k ≤ (q : ℚ) * (2 : ℚ) ^ (b.exponent - 2) := by
  obtain ⟨s, hs, hbin, hdec⟩ := b.exists_scaled k q c
  rw [← Nat.cast_le (α := ℚ), hdec, hbin]
  exact mul_le_mul_iff_left₀ hs

theorem worth_eq (b : Binary) : b.worth = (4 * b.mantissa : ℕ) * (2 : ℚ) ^ (b.exponent - 2) := by
  have htwo : (2 : ℚ) ^ b.exponent = (2 : ℚ) ^ (b.exponent - 2) * 2 ^ (2 : ℤ) := by
    rw [← zpow_add₀ (by norm_num)]
    congr 1
    ring
  unfold worth
  rw [htwo]
  push_cast
  ring

theorem rounds_of_readsBack {b : Binary} (hproper : b.Proper) {k : Int} {c : Nat}
    (hreads : b.readsBack k c = true) : b.Rounds (Decimal.worth ⟨c, k⟩) := by
  have hpos := hproper.pos
  have hlower : b.lower =
      ((4 * b.mantissa - (if b.atStep then 1 else 2) : ℕ) : ℚ) * (2 : ℚ) ^ (b.exponent - 2) := by
    unfold lower
    split
    · rw [Nat.cast_sub (by omega)]
      push_cast
      ring
    · rw [Nat.cast_sub (by omega)]
      push_cast
      ring
  have hupper : b.upper = ((4 * b.mantissa + 2 : ℕ) : ℚ) * (2 : ℚ) ^ (b.exponent - 2) := by
    unfold upper
    push_cast
    ring
  unfold readsBack at hreads
  dsimp only at hreads
  unfold Rounds Decimal.worth
  rw [hlower, hupper]
  split at hreads
  · rename_i heven
    obtain ⟨hlow, hhigh⟩ : _ ∧ _ := by simpa using hreads
    refine ⟨(b.scaled_le_iff k _ c).1 hlow, (b.le_scaled_iff k _ c).1 hhigh, ?_⟩
    intro hodd
    exact absurd (by simpa using heven) hodd
  · obtain ⟨hlow, hhigh⟩ : _ ∧ _ := by simpa using hreads
    refine ⟨(b.scaled_le_iff k _ c).1 hlow.le, (b.le_scaled_iff k _ c).1 hhigh.le, ?_⟩
    intro _
    constructor
    · intro hsame
      exact absurd ((b.le_scaled_iff k _ c).2 hsame.le) (Nat.not_le_of_lt hlow)
    · intro hsame
      exact absurd ((b.scaled_le_iff k _ c).2 hsame.ge) (Nat.not_le_of_lt hhigh)

/-!
## Grids
-/

theorem below_le (b : Binary) (k : Int) :
    b.below k * (10 : ℚ) ^ k ≤ b.worth ∧ b.worth < (b.below k + 1) * (10 : ℚ) ^ k := by
  obtain ⟨s, hs, hdec, -⟩ := b.exists_scale k
  have hpos : 0 < (b.scales k).1 := by
    have hdecpos : (0 : ℚ) < ((b.scales k).1 : ℚ) := by
      rw [hdec]
      positivity
    exact_mod_cast hdecpos
  have hbelow : b.below k = 4 * b.mantissa * (b.scales k).2 / (b.scales k).1 := rfl
  rw [worth_eq]
  constructor
  · rw [← b.le_scaled_iff k, hbelow]
    exact Nat.div_mul_le_self _ _
  · have hlt : ¬ (b.below k + 1) * (b.scales k).1 ≤ 4 * b.mantissa * (b.scales k).2 := by
      rw [hbelow, not_le, ← Nat.div_lt_iff_lt_mul hpos]
      exact Nat.lt_succ_self _
    rw [b.le_scaled_iff k] at hlt
    push_cast at hlt ⊢
    exact not_le.1 hlt

theorem rounds_of_onGrid {b : Binary} (hproper : b.Proper) {k : Int} {c : Nat}
    (hgrid : b.onGrid k = some c) : b.Rounds (Decimal.worth ⟨c, k⟩) := by
  unfold onGrid at hgrid
  dsimp only at hgrid
  split at hgrid
  · rename_i hbelow habove
    split at hgrid
    · cases hgrid
      exact rounds_of_readsBack hproper hbelow
    · cases hgrid
      exact rounds_of_readsBack hproper habove
  · rename_i hbelow _
    cases hgrid
    exact rounds_of_readsBack hproper hbelow
  · rename_i _ habove
    cases hgrid
    exact rounds_of_readsBack hproper habove
  · cases hgrid

theorem lower_lt_worth (b : Binary) :
    b.lower < b.worth ∧ b.upper = b.worth + 2 * (2 : ℚ) ^ (b.exponent - 2) := by
  have hquarter : (0 : ℚ) < (2 : ℚ) ^ (b.exponent - 2) := by positivity
  rw [worth_eq]
  unfold lower upper
  push_cast
  constructor
  · split <;> linarith
  · ring

theorem readsBack_of_lt {b : Binary} (hproper : b.Proper) {k : Int} {c : Nat}
    (hlow : b.lower < c * (10 : ℚ) ^ k) (hhigh : c * (10 : ℚ) ^ k < b.upper) :
    b.readsBack k c = true := by
  have hpos := hproper.pos
  have hlow' : (4 * b.mantissa - (if b.atStep then 1 else 2)) * (b.scales k).2 <
      c * (b.scales k).1 := by
    rw [← not_le, b.le_scaled_iff k, not_le]
    refine lt_of_le_of_lt (le_of_eq ?_) hlow
    unfold lower
    split
    · rw [Nat.cast_sub (by omega)]
      push_cast
      ring
    · rw [Nat.cast_sub (by omega)]
      push_cast
      ring
  have hhigh' : c * (b.scales k).1 < (4 * b.mantissa + 2) * (b.scales k).2 := by
    rw [← not_le, b.scaled_le_iff k, not_le]
    refine lt_of_lt_of_le hhigh (le_of_eq ?_)
    unfold upper
    push_cast
    ring
  unfold readsBack
  dsimp only
  split
  · simp [hlow'.le, hhigh'.le]
  · simp [hlow', hhigh']

/-- On a grid that is as fine as half of the last place there is a decimal that reads back. -/
theorem exists_onGrid {b : Binary} (hproper : b.Proper) {k : Int}
    (hfine : (10 : ℚ) ^ k ≤ (2 : ℚ) ^ (b.exponent - 1)) : ∃ c, b.onGrid k = some c := by
  obtain ⟨hle, hlt⟩ := b.below_le k
  obtain ⟨hlower, hupper⟩ := b.lower_lt_worth
  have hhalf : (2 : ℚ) ^ (b.exponent - 1) = 2 * (2 : ℚ) ^ (b.exponent - 2) := by
    rw [← zpow_one_add₀ (by norm_num)]
    congr 1
    ring
  have hquarter : (0 : ℚ) < (2 : ℚ) ^ (b.exponent - 2) := by positivity
  have hhit : b.readsBack k (b.below k) = true ∨ b.readsBack k (b.below k + 1) = true := by
    rcases hle.eq_or_lt with hsame | hless
    · left
      apply readsBack_of_lt hproper
      · rw [hsame]
        exact hlower
      · rw [hsame, hupper]
        linarith
    · right
      apply readsBack_of_lt hproper
      · push_cast
        linarith
      · push_cast
        linarith
  unfold onGrid
  dsimp only
  split
  · split <;> exact ⟨_, rfl⟩
  · exact ⟨_, rfl⟩
  · exact ⟨_, rfl⟩
  · rename_i hbelow habove
    rw [hbelow, habove] at hhit
    rcases hhit with h | h <;> cases h

/-!
## The search
-/

theorem rounds_of_search {b : Binary} (hproper : b.Proper) {steps : Nat} {k : Int}
    (hfine : ∃ j : ℕ, j < steps ∧ (10 : ℚ) ^ (k - j) ≤ (2 : ℚ) ^ (b.exponent - 1)) :
    b.Rounds (b.search steps k).worth := by
  induction steps generalizing k with
  | zero =>
      obtain ⟨j, hj, -⟩ := hfine
      exact absurd hj (Nat.not_lt_zero j)
  | succ steps ih =>
      unfold search
      cases hgrid : b.onGrid k with
      | some c => exact rounds_of_onGrid hproper hgrid
      | none =>
          refine ih ?_
          obtain ⟨j, hj, hle⟩ := hfine
          cases j with
          | zero =>
              rw [Nat.cast_zero, sub_zero] at hle
              obtain ⟨c, hc⟩ := exists_onGrid hproper hle
              rw [hgrid] at hc
              cases hc
          | succ j =>
              refine ⟨j, by omega, ?_⟩
              have hindex : k - 1 - (j : ℤ) = k - ((j + 1 : ℕ) : ℤ) := by
                push_cast
                ring
              rw [hindex]
              exact hle

theorem pow_le_worth_of_below {b : Binary} {k : Int} (hpos : 0 < b.below k) :
    (10 : ℚ) ^ k ≤ b.worth := by
  have hone : (1 : ℚ) ≤ b.below k := by exact_mod_cast hpos
  have hten : (0 : ℚ) < (10 : ℚ) ^ k := by positivity
  calc (10 : ℚ) ^ k = 1 * (10 : ℚ) ^ k := (one_mul _).symm
    _ ≤ b.below k * (10 : ℚ) ^ k := by gcongr
    _ ≤ b.worth := (b.below_le k).1

theorem pow_magnitude_le_worth {b : Binary} (hproper : b.Proper) :
    (10 : ℚ) ^ b.magnitude ≤ b.worth := by
  unfold magnitude
  dsimp only
  split
  · rename_i hwhole
    obtain ⟨hle, -⟩ := b.below_le 0
    rw [zpow_zero, mul_one] at hle
    refine le_trans ?_ hle
    have hlength : 0 < (Nat.toDigits 10 (b.below 0)).length := Nat.length_toDigits_pos
    have hdigits := pow_length_toDigits_le hwhole
    have hexponent : (((Nat.toDigits 10 (b.below 0)).length : ℤ) - 1) =
        (((Nat.toDigits 10 (b.below 0)).length - 1 : ℕ) : ℤ) := by omega
    rw [hexponent, zpow_natCast]
    exact_mod_cast hdigits
  · cases hfind : (List.range 330).find? fun j => decide (0 < b.below (Int.negOfNat j)) with
    | some j =>
        have hpos := List.find?_some hfind
        exact pow_le_worth_of_below (by simpa using hpos)
    | none =>
        -- On the last of these grids every number shows a digit.
        exfalso
        have hnone := List.find?_eq_none.1 hfind 329 (by decide)
        have hzero : b.below (Int.negOfNat 329) = 0 := by simpa using hnone
        obtain ⟨-, hlt⟩ := b.below_le (Int.negOfNat 329)
        rw [hzero, Nat.cast_zero, zero_add, one_mul] at hlt
        have hleast : (2 : ℚ) ^ (-1074 : ℤ) ≤ b.worth := by
          have hone : (1 : ℚ) ≤ b.mantissa := by exact_mod_cast hproper.pos
          have hplace : (2 : ℚ) ^ (-1074 : ℤ) ≤ (2 : ℚ) ^ b.exponent :=
            zpow_le_zpow_right₀ (by norm_num) hproper.least
          unfold worth
          have hpos : (0 : ℚ) < (2 : ℚ) ^ b.exponent := by positivity
          nlinarith
        have hgap : (10 : ℚ) ^ (-329 : ℤ) ≤ (2 : ℚ) ^ (-1074 : ℤ) := by
          have hpowers : 2 ^ 1074 ≤ 10 ^ 329 := by decide +kernel
          rw [zpow_neg, zpow_neg]
          gcongr
          exact_mod_cast hpowers
        exact absurd (lt_of_lt_of_le hlt hgap) (not_lt.2 hleast)

theorem worth_normalised (fuel : Nat) (d : Decimal) : (d.normalised fuel).worth = d.worth := by
  induction fuel generalizing d with
  | zero => rfl
  | succ fuel ih =>
      unfold Decimal.normalised
      split
      · rename_i htrailing
        rw [ih]
        obtain ⟨-, hzero⟩ : _ ∧ _ := by simpa using htrailing
        have hdigits : ((d.digits / 10 : ℕ) : ℚ) * 10 = d.digits := by
          exact_mod_cast Nat.div_mul_cancel (Nat.dvd_of_mod_eq_zero hzero)
        unfold Decimal.worth
        rw [zpow_add₀ (by norm_num), zpow_one, ← hdigits]
        ring
      · rfl

/-- The shortest digits stand for a rational number that is rounded to the number. -/
theorem rounds_shortest {b : Binary} (hproper : b.Proper) : b.Rounds b.shortest.worth := by
  unfold shortest
  rw [worth_normalised]
  refine rounds_of_search hproper ⟨17, by decide, ?_⟩
  have hmagnitude := pow_magnitude_le_worth hproper
  have hsmall : (b.mantissa : ℚ) ≤ 2 ^ 53 := by exact_mod_cast hproper.small.le
  have hplace : (0 : ℚ) < (2 : ℚ) ^ b.exponent := by positivity
  have hsplit : (10 : ℚ) ^ (b.magnitude - (17 : ℕ)) = (10 : ℚ) ^ b.magnitude / 10 ^ 17 := by
    rw [zpow_sub₀ (by norm_num), zpow_natCast]
  have hhalf : (2 : ℚ) ^ (b.exponent - 1) = (2 : ℚ) ^ b.exponent / 2 := by
    rw [zpow_sub₀ (by norm_num), zpow_one]
  rw [hsplit, hhalf]
  calc (10 : ℚ) ^ b.magnitude / 10 ^ 17 ≤ b.worth / 10 ^ 17 := by gcongr
    _ = b.mantissa * (2 : ℚ) ^ b.exponent / 10 ^ 17 := rfl
    _ ≤ 2 ^ 53 * (2 : ℚ) ^ b.exponent / 10 ^ 17 := by gcongr
    _ ≤ (2 : ℚ) ^ b.exponent / 2 := by
        rw [div_le_div_iff₀ (by norm_num) (by norm_num)]
        nlinarith

end Binary
end Text
end LogHarvest
