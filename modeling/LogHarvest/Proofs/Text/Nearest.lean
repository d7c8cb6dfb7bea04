import LogHarvest.Proofs.Text.Shortest

/-!
# Rounding a decimal gives the number back

To read a decimal is to round it to the place that its magnitude calls for.  Every
rational number in the interval of a number is rounded to that number, also those
just below a power of two, which are rounded up to it at a place further down.
-/

namespace LogHarvest
namespace Text

/-- The whole number that is no further away than a half, and even if it is so far away. -/
theorem nearestWhole_eq {num den m : Nat} (hden : 0 < den) (hlow : 2 * m * den ≤ 2 * num + den)
    (hhigh : 2 * num ≤ 2 * m * den + den)
    (htie : m % 2 ≠ 0 → 2 * m * den ≠ 2 * num + den ∧ 2 * num ≠ 2 * m * den + den) :
    nearestWhole num den = m := by
  have hsplit := Nat.div_add_mod num den
  have hrest := Nat.mod_lt num hden
  set q := num / den with hq
  set r := num % den with hr
  have hcases : m = q ∨ m = q + 1 := by
    have hle : q ≤ m := by
      by_contra hlt
      have hstep : (m + 1) * den ≤ q * den := Nat.mul_le_mul_right den (by omega)
      nlinarith
    have hge : m ≤ q + 1 := by
      by_contra hlt
      have hstep : (q + 2) * den ≤ m * den := Nat.mul_le_mul_right den (by omega)
      nlinarith
    omega
  unfold nearestWhole
  dsimp only
  rw [← hq, ← hr]
  have hnum : num = q * den + r := by rw [← hsplit, Nat.mul_comm]
  rcases hcases with rfl | rfl
  · have hle : 2 * r ≤ den := by nlinarith
    have heven : 2 * r = den → q % 2 = 0 := by
      intro hhalf
      by_contra hodd
      exact (htie hodd).2 (by nlinarith)
    by_cases hhalf : 2 * r = den
    · simp [hhalf, heven hhalf]
    · have hlt : 2 * r < den := by omega
      simp [hlt]
  · have hge : den ≤ 2 * r := by nlinarith
    have hodd : 2 * r = den → q % 2 ≠ 0 := by
      intro hhalf heven
      exact (htie (by omega)).1 (by nlinarith)
    have hnot : ¬ 2 * r < den := by omega
    by_cases hhalf : 2 * r = den
    · simp [hhalf, hodd hhalf]
    · simp [hnot, hhalf]

/-!
## The place of rounding
-/

theorem scaled_lt_iff {num den : Nat} (hden : 0 < den) {v : ℚ} (hv : v * den = num) (q : Nat)
    (e : Int) :
    num * (Binary.powerParts 2 e).2 < q * (Binary.powerParts 2 e).1 * den ↔
      v < q * (2 : ℚ) ^ e := by
  obtain ⟨-, hdown⟩ := Binary.powerParts_pos (show 0 < 2 by decide) e
  have hparts := Binary.powerParts_eq (show 0 < 2 by decide) e
  have hdenq : (0 : ℚ) < den := by exact_mod_cast hden
  have hdownq : (0 : ℚ) < ((Binary.powerParts 2 e).2 : ℚ) := by exact_mod_cast hdown
  rw [← Nat.cast_lt (α := ℚ)]
  push_cast at hparts ⊢
  rw [hparts, ← hv]
  have hleft : v * den * ((Binary.powerParts 2 e).2 : ℚ) =
      v * (den * (Binary.powerParts 2 e).2) := by ring
  have hright : (q : ℚ) * ((2 : ℚ) ^ e * (Binary.powerParts 2 e).2) * den =
      q * (2 : ℚ) ^ e * (den * (Binary.powerParts 2 e).2) := by ring
  rw [hleft, hright]
  exact mul_lt_mul_iff_left₀ (mul_pos hdenq hdownq)

theorem bounds_of_log2 {num den : Nat} (hnum : 0 < num) (hden : 0 < den) {v : ℚ}
    (hv : v * den = num) :
    2 ^ 51 * (2 : ℚ) ^ ((num.log2 : ℤ) - den.log2 - 52) ≤ v ∧
      v < 2 ^ 53 * (2 : ℚ) ^ ((num.log2 : ℤ) - den.log2 - 52) := by
  have hdenq : (0 : ℚ) < den := by exact_mod_cast hden
  have hnlow : ((2 : ℚ) ^ num.log2) ≤ num := by exact_mod_cast Nat.log2_self_le hnum.ne'
  have hnhigh : (num : ℚ) < 2 ^ (num.log2 + 1) := by exact_mod_cast Nat.lt_log2_self
  have hdlow : ((2 : ℚ) ^ den.log2) ≤ den := by exact_mod_cast Nat.log2_self_le hden.ne'
  have hdhigh : (den : ℚ) < 2 ^ (den.log2 + 1) := by exact_mod_cast Nat.lt_log2_self
  have hscale : (2 : ℚ) ^ ((num.log2 : ℤ) - den.log2 - 52) * 2 ^ 52 * 2 ^ den.log2 =
      2 ^ num.log2 := by
    rw [← zpow_natCast, ← zpow_natCast, ← zpow_natCast, ← zpow_add₀ (by norm_num),
      ← zpow_add₀ (by norm_num)]
    congr 1
    push_cast
    ring
  set g : ℚ := (2 : ℚ) ^ ((num.log2 : ℤ) - den.log2 - 52)
  have hg : 0 < g := by positivity
  rw [pow_succ] at hnhigh hdhigh
  constructor
  · have hle : 2 ^ 51 * g * den ≤ v * den := by
      rw [hv]
      nlinarith
    exact le_of_mul_le_mul_right hle hdenq
  · have hlt : v * den < 2 ^ 53 * g * den := by
      rw [hv]
      nlinarith
    exact lt_of_mul_lt_mul_right hlt hdenq.le

theorem lastPlace_spec {num den : Nat} (hnum : 0 < num) (hden : 0 < den) {v : ℚ}
    (hv : v * den = num) :
    -1074 ≤ lastPlace num den ∧ v < 2 ^ 53 * (2 : ℚ) ^ lastPlace num den ∧
      (lastPlace num den ≠ -1074 → 2 ^ 52 * (2 : ℚ) ^ lastPlace num den ≤ v) := by
  obtain ⟨hlow, hhigh⟩ := bounds_of_log2 hnum hden hv
  have hless := scaled_lt_iff hden hv (Nat.pow 2 52) ((num.log2 : ℤ) - den.log2 - 52)
  have hunits : ((Nat.pow 2 52 : ℕ) : ℚ) = 2 ^ 52 := by norm_num
  rw [hunits] at hless
  unfold lastPlace
  dsimp only
  set guess : ℤ := (num.log2 : ℤ) - den.log2 - 52
  -- The guess is the right place or one too far up.
  have hplace : ∀ place : ℤ, 2 ^ 52 * (2 : ℚ) ^ place ≤ v → v < 2 ^ 53 * (2 : ℚ) ^ place →
      -1074 ≤ max (-1074) place ∧ v < 2 ^ 53 * (2 : ℚ) ^ max (-1074) place ∧
        (max (-1074) place ≠ -1074 → 2 ^ 52 * (2 : ℚ) ^ max (-1074) place ≤ v) := by
    intro place hfrom hto
    refine ⟨le_max_left _ _, lt_of_lt_of_le hto ?_, ?_⟩
    · gcongr
      · norm_num
      · exact le_max_right _ _
    · intro hne
      rcases max_choice (-1074) place with h | h
      · exact absurd h hne
      · rw [h]
        exact hfrom
  have hdown : (2 : ℚ) ^ guess = 2 * (2 : ℚ) ^ (guess - 1) := by
    rw [← zpow_one_add₀ (by norm_num)]
    congr 1
    ring
  split
  · rename_i hlt
    rw [hless] at hlt
    rw [hdown] at hlow hlt
    exact hplace _ (by linarith) (by linarith)
  · rename_i hnot
    rw [hless, not_lt] at hnot
    exact hplace _ hnot hhigh

/-!
## The bits of the nearest number
-/

namespace Binary

def bits (b : Binary) : Nat :=
  (b.exponent + 1074).toNat * 2 ^ 52 + b.mantissa

theorem nearestWhole_at {num den m : Nat} (hden : 0 < den) {v : ℚ} (hv : v * den = num) {e : Int}
    (hlow : (2 * m - 1) * (2 : ℚ) ^ e ≤ 2 * v) (hhigh : 2 * v ≤ (2 * m + 1) * (2 : ℚ) ^ e)
    (htie : m % 2 ≠ 0 → (2 * m - 1) * (2 : ℚ) ^ e ≠ 2 * v ∧ 2 * v ≠ (2 * m + 1) * (2 : ℚ) ^ e) :
    nearestWhole (num * (powerParts 2 e).2) ((powerParts 2 e).1 * den) = m := by
  obtain ⟨hup, hdown⟩ := powerParts_pos (show 0 < 2 by decide) e
  have hparts := powerParts_eq (show 0 < 2 by decide) e
  have hdenq : (0 : ℚ) < den := by exact_mod_cast hden
  have hdownq : (0 : ℚ) < ((powerParts 2 e).2 : ℚ) := by exact_mod_cast hdown
  have hscale : (0 : ℚ) < den * (powerParts 2 e).2 := mul_pos hdenq hdownq
  -- Both sides of each comparison are scaled by the same positive number.
  have hleft : ((2 * m * ((powerParts 2 e).1 * den) : ℕ) : ℚ) - ((powerParts 2 e).1 * den : ℕ) =
      (2 * m - 1) * (2 : ℚ) ^ e * (den * (powerParts 2 e).2) := by
    push_cast at hparts ⊢
    rw [hparts]
    ring
  have hright : ((2 * m * ((powerParts 2 e).1 * den) : ℕ) : ℚ) + ((powerParts 2 e).1 * den : ℕ) =
      (2 * m + 1) * (2 : ℚ) ^ e * (den * (powerParts 2 e).2) := by
    push_cast at hparts ⊢
    rw [hparts]
    ring
  have hmiddle : ((2 * (num * (powerParts 2 e).2) : ℕ) : ℚ) =
      2 * v * (den * (powerParts 2 e).2) := by
    push_cast
    rw [← hv]
    ring
  apply nearestWhole_eq (Nat.mul_pos hup hden)
  · rw [← Nat.cast_le (α := ℚ), Nat.cast_add, ← sub_le_iff_le_add, hleft, hmiddle]
    gcongr
  · rw [← Nat.cast_le (α := ℚ), Nat.cast_add, hright, hmiddle]
    gcongr
  · intro hodd
    obtain ⟨hne, hne'⟩ := htie hodd
    constructor
    · intro hsame
      have hsame' :
          ((2 * m * ((powerParts 2 e).1 * den) : ℕ) : ℚ) - ((powerParts 2 e).1 * den : ℕ) =
          ((2 * (num * (powerParts 2 e).2) : ℕ) : ℚ) := by
        rw [hsame]
        push_cast
        ring
      rw [hleft, hmiddle] at hsame'
      exact hne (mul_right_cancel₀ hscale.ne' hsame')
    · intro hsame
      have hsame' : ((2 * (num * (powerParts 2 e).2) : ℕ) : ℚ) =
          ((2 * m * ((powerParts 2 e).1 * den) : ℕ) : ℚ) + ((powerParts 2 e).1 * den : ℕ) := by
        rw [hsame]
        push_cast
        ring
      rw [hright, hmiddle] at hsame'
      exact hne' (mul_right_cancel₀ hscale.ne' hsame')

theorem quarter_eq (b : Binary) : (2 : ℚ) ^ b.exponent = 4 * (2 : ℚ) ^ (b.exponent - 2) := by
  have htwo : (4 : ℚ) = 2 ^ (2 : ℤ) := by norm_num
  rw [htwo, ← zpow_add₀ (by norm_num)]
  congr 1
  ring

theorem two_mul_upper (b : Binary) :
    2 * b.upper = (2 * b.mantissa + 1) * (2 : ℚ) ^ b.exponent := by
  unfold upper
  rw [b.quarter_eq]
  ring

theorem two_mul_lower (b : Binary) :
    2 * b.lower = (2 * b.mantissa - (if b.atStep then 1 / 2 else 1)) * (2 : ℚ) ^ b.exponent := by
  unfold lower
  rw [b.quarter_eq]
  split <;> ring

theorem nearestWhole_of_rounds {b : Binary} (hproper : b.Proper) {num den : Nat} (hden : 0 < den)
    {v : ℚ} (hv : v * den = num) (hrounds : b.Rounds v) :
    nearestWhole (num * (powerParts 2 b.exponent).2) ((powerParts 2 b.exponent).1 * den) =
      b.mantissa := by
  obtain ⟨hlow, hhigh, htie⟩ := hrounds
  have hupper := b.two_mul_upper
  have hlower := b.two_mul_lower
  have hplace : (0 : ℚ) < (2 : ℚ) ^ b.exponent := by positivity
  have hbelow : (2 * b.mantissa - 1) * (2 : ℚ) ^ b.exponent ≤ 2 * b.lower := by
    rw [hlower]
    split <;> nlinarith
  apply nearestWhole_at hden hv
  · linarith
  · linarith
  · intro hodd
    obtain ⟨hnelow, hnehigh⟩ := htie hodd
    have hstep : b.atStep = false := by
      cases hat : b.atStep with
      | false => rfl
      | true =>
          rw [(hproper.step.1 hat).1] at hodd
          exact absurd (by decide) hodd
    rw [hstep] at hlower
    constructor
    · intro hsame
      apply hnelow
      rw [if_neg (by decide)] at hlower
      linarith
    · intro hsame
      apply hnehigh
      linarith

/-- What is rounded to a number is rounded at its place, or just below a power of two. -/
theorem lastPlace_of_rounds {b : Binary} (hproper : b.Proper) {num den : Nat} (hnum : 0 < num)
    (hden : 0 < den) {v : ℚ} (hv : v * den = num) (hrounds : b.Rounds v) :
    lastPlace num den = b.exponent ∨
      lastPlace num den = b.exponent - 1 ∧ b.mantissa = 2 ^ 52 ∧ b.exponent ≠ -1074 := by
  obtain ⟨hleast, hto, hfrom⟩ := lastPlace_spec hnum hden hv
  obtain ⟨hlow, hhigh, -⟩ := hrounds
  have hupper := b.two_mul_upper
  have hlower := b.two_mul_lower
  set place := lastPlace num den
  have hplace : (0 : ℚ) < (2 : ℚ) ^ b.exponent := by positivity
  have hsmall : (b.mantissa : ℚ) + 1 ≤ 2 ^ 53 := by exact_mod_cast hproper.small
  rcases lt_trichotomy place b.exponent with hless | hsame | hmore
  · right
    have hnormal : b.exponent ≠ -1074 := by omega
    have hlarge : 2 ^ 52 ≤ b.mantissa := by
      by_contra hlt
      exact hnormal (hproper.normal (by omega))
    have hstep : (2 : ℚ) ^ place ≤ (2 : ℚ) ^ (b.exponent - 1) :=
      zpow_le_zpow_right₀ (by norm_num) (by omega)
    have hhalf : (2 : ℚ) ^ b.exponent = 2 * (2 : ℚ) ^ (b.exponent - 1) := by
      rw [← zpow_one_add₀ (by norm_num)]
      congr 1
      ring
    -- Any other mantissa would have all that is rounded to it above the power of two.
    have hmantissa : b.mantissa = 2 ^ 52 := by
      by_contra hne
      have hmore : (2 ^ 52 : ℚ) + 1 ≤ b.mantissa := by
        have hlt : 2 ^ 52 + 1 ≤ b.mantissa := by omega
        exact_mod_cast hlt
      have hbelow : (2 * b.mantissa - 1) * (2 : ℚ) ^ b.exponent ≤ 2 * b.lower := by
        rw [hlower]
        split <;> nlinarith
      nlinarith
    refine ⟨?_, hmantissa, hnormal⟩
    by_contra hne
    have hfar : (2 : ℚ) ^ place ≤ (2 : ℚ) ^ (b.exponent - 2) :=
      zpow_le_zpow_right₀ (by norm_num) (by omega)
    have hquarter := b.quarter_eq
    rw [hproper.step.2 ⟨hmantissa, hnormal⟩, if_pos rfl, hmantissa] at hlower
    push_cast at hlower
    nlinarith
  · exact Or.inl hsame
  · exfalso
    have hge := hfrom (by have := hproper.least; omega)
    have hdouble : 2 * (2 : ℚ) ^ b.exponent ≤ (2 : ℚ) ^ place := by
      rw [← zpow_one_add₀ (by norm_num)]
      exact zpow_le_zpow_right₀ (by norm_num) (by omega)
    nlinarith

theorem nearestBits_of_rounds {b : Binary} (hproper : b.Proper) {num den : Nat} (hnum : 0 < num)
    (hden : 0 < den) {v : ℚ} (hv : v * den = num) (hrounds : b.Rounds v) :
    nearestBits num den = b.bits := by
  have hleast := hproper.least
  have hgreatest := hproper.greatest
  have hsmall := hproper.small
  have hfits : b.bits ≤ 2047 * 2 ^ 52 := by
    unfold bits
    omega
  have hpow : Nat.pow 2 52 = 2 ^ 52 := rfl
  unfold nearestBits
  dsimp only
  rw [hpow]
  suffices hbits : (lastPlace num den + 1074).toNat * 2 ^ 52 +
      nearestWhole (num * (powerParts 2 (lastPlace num den)).2)
        ((powerParts 2 (lastPlace num den)).1 * den) = b.bits by
    rw [hbits]
    exact Nat.min_eq_left hfits
  rcases lastPlace_of_rounds hproper hnum hden hv hrounds with hplace | ⟨hplace, hmantissa, hne⟩
  · rw [hplace, nearestWhole_of_rounds hproper hden hv hrounds]
    rfl
  · -- Just below a power of two the places are finer, and the next number is the power itself.
    have hround : nearestWhole (num * (powerParts 2 (b.exponent - 1)).2)
        ((powerParts 2 (b.exponent - 1)).1 * den) = 2 ^ 53 := by
      obtain ⟨-, hto, -⟩ := lastPlace_spec hnum hden hv
      rw [hplace] at hto
      have hlow := hrounds.1
      have hlower := b.two_mul_lower
      have hhalf : (2 : ℚ) ^ b.exponent = 2 * (2 : ℚ) ^ (b.exponent - 1) := by
        rw [← zpow_one_add₀ (by norm_num)]
        congr 1
        ring
      rw [hproper.step.2 ⟨hmantissa, hne⟩, if_pos rfl, hmantissa, hhalf] at hlower
      have hpos : (0 : ℚ) < (2 : ℚ) ^ (b.exponent - 1) := by positivity
      push_cast at hlower
      apply nearestWhole_at hden hv
      · push_cast
        linarith
      · push_cast
        nlinarith
      · intro hodd
        exact absurd (by decide) hodd
    rw [hplace, hround]
    unfold bits
    rw [hmantissa]
    have hexponent : (b.exponent - 1 + 1074).toNat + 1 = (b.exponent + 1074).toNat := by omega
    rw [← hexponent]
    show _ * 2 ^ 52 + 2 ^ 53 = _
    omega

end Binary

/-!
## Reading decimals
-/

theorem bounds_of_worth {d : Decimal} (hdigits : 0 < d.digits) :
    (10 : ℚ) ^ (((Nat.toDigits 10 d.digits).length : ℤ) - 1 + d.exponent) ≤ d.worth ∧
      d.worth < (10 : ℚ) ^ (((Nat.toDigits 10 d.digits).length : ℤ) + d.exponent) := by
  have hlength : 0 < (Nat.toDigits 10 d.digits).length := Nat.length_toDigits_pos
  have hlow : (10 : ℚ) ^ ((Nat.toDigits 10 d.digits).length - 1) ≤ d.digits := by
    exact_mod_cast pow_length_toDigits_le hdigits
  have hhigh : (d.digits : ℚ) < 10 ^ (Nat.toDigits 10 d.digits).length := by
    exact_mod_cast lt_pow_length_toDigits d.digits
  have hexponent : ((Nat.toDigits 10 d.digits).length : ℤ) - 1 =
      (((Nat.toDigits 10 d.digits).length - 1 : ℕ) : ℤ) := by omega
  have hpos : (0 : ℚ) < (10 : ℚ) ^ d.exponent := by positivity
  unfold Decimal.worth
  rw [zpow_add₀ (by norm_num), zpow_add₀ (by norm_num), hexponent, zpow_natCast, zpow_natCast]
  exact ⟨by gcongr, by gcongr⟩

namespace Binary

theorem bounds_of_rounds {b : Binary} (hproper : b.Proper) {v : ℚ} (hrounds : b.Rounds v) :
    (2 : ℚ) ^ (-1074 : ℤ) ≤ 2 * v ∧ v ≤ 2 ^ 53 * (2 : ℚ) ^ (971 : ℤ) := by
  have hleast : (2 : ℚ) ^ (-1074 : ℤ) ≤ (2 : ℚ) ^ b.exponent :=
    zpow_le_zpow_right₀ (by norm_num) hproper.least
  have hgreatest : (2 : ℚ) ^ b.exponent ≤ (2 : ℚ) ^ (971 : ℤ) :=
    zpow_le_zpow_right₀ (by norm_num) hproper.greatest
  have hone : (1 : ℚ) ≤ b.mantissa := by exact_mod_cast hproper.pos
  have hsmall : (b.mantissa : ℚ) + 1 ≤ 2 ^ 53 := by exact_mod_cast hproper.small
  have hplace : (0 : ℚ) < (2 : ℚ) ^ b.exponent := by positivity
  have hbelow : (2 * b.mantissa - 1) * (2 : ℚ) ^ b.exponent ≤ 2 * b.lower := by
    rw [b.two_mul_lower]
    split <;> nlinarith
  have hupper := b.two_mul_upper
  obtain ⟨hlow, hhigh, -⟩ := hrounds
  generalize (2 : ℚ) ^ (-1074 : ℤ) = least at hleast ⊢
  generalize (2 : ℚ) ^ (971 : ℤ) = greatest at hgreatest ⊢
  constructor
  · nlinarith
  · have hcap : (2 * (b.mantissa : ℚ) + 1) * (2 : ℚ) ^ b.exponent ≤
        2 ^ 54 * (2 : ℚ) ^ b.exponent := by
      gcongr
      linarith
    linarith

end Binary

/-- A decimal that is rounded to a number is read as its bits. -/
theorem toFloat_of_rounds {b : Binary} (hproper : b.Proper) {d : Decimal}
    (hrounds : b.Rounds d.worth) : d.toFloat = Float.ofBits (UInt64.ofNat b.bits) := by
  obtain ⟨hlow, hhigh⟩ := Binary.bounds_of_rounds hproper hrounds
  have hdigits : 0 < d.digits := by
    rcases Nat.eq_zero_or_pos d.digits with hzero | hpos
    · exfalso
      have hworth : d.worth = 0 := by
        unfold Decimal.worth
        rw [hzero]
        simp
      rw [hworth, mul_zero] at hlow
      exact absurd hlow (not_le.2 (by positivity))
    · exact hpos
  obtain ⟨hfrom, hto⟩ := bounds_of_worth hdigits
  obtain ⟨hup, hdown⟩ := Binary.powerParts_pos (show 0 < 10 by decide) d.exponent
  have hparts := Binary.powerParts_eq (show 0 < 10 by decide) d.exponent
  have hv : d.worth * (d.parts.2 : ℕ) = (d.parts.1 : ℕ) := by
    unfold Decimal.worth Decimal.parts
    push_cast at hparts ⊢
    rw [hparts]
    ring
  -- The number of digits does not exclude a number of this magnitude.
  have hnotHuge : ¬ 400 < ((Nat.toDigits 10 d.digits).length : ℤ) + d.exponent := by
    intro hhuge
    have hpow : (10 : ℚ) ^ (400 : ℤ) ≤
        (10 : ℚ) ^ (((Nat.toDigits 10 d.digits).length : ℤ) - 1 + d.exponent) :=
      zpow_le_zpow_right₀ (by norm_num) (by omega)
    have hgap : (2 : ℚ) ^ 53 * (2 : ℚ) ^ (971 : ℤ) < (10 : ℚ) ^ (400 : ℤ) := by
      have hpowers : 2 ^ 53 * 2 ^ 971 < 10 ^ 400 := by decide +kernel
      exact_mod_cast hpowers
    exact absurd (lt_of_lt_of_le hgap (le_trans hpow hfrom)) (not_lt.2 hhigh)
  have hnotTiny : ¬ ((Nat.toDigits 10 d.digits).length : ℤ) + d.exponent < -400 := by
    intro htiny
    have hpow : (10 : ℚ) ^ (((Nat.toDigits 10 d.digits).length : ℤ) + d.exponent) ≤
        (10 : ℚ) ^ (-401 : ℤ) := zpow_le_zpow_right₀ (by norm_num) (by omega)
    have hgap : 2 * (10 : ℚ) ^ (-401 : ℤ) ≤ (2 : ℚ) ^ (-1074 : ℤ) := by
      have hpowers : 2 * 2 ^ 1074 ≤ 10 ^ 401 := by decide +kernel
      have hcast : (2 : ℚ) * 2 ^ 1074 ≤ 10 ^ 401 := by exact_mod_cast hpowers
      rw [zpow_neg, zpow_neg, ← div_eq_mul_inv, ← one_div, div_le_div_iff₀ (by positivity)
        (by positivity)]
      simpa using hcast
    have hless : 2 * d.worth < 2 * (10 : ℚ) ^ (-401 : ℤ) := by
      have := lt_of_lt_of_le hto hpow
      gcongr
    exact absurd (lt_of_lt_of_le hless hgap) (not_lt.2 hlow)
  have hbits := Binary.nearestBits_of_rounds hproper (Nat.mul_pos hdigits hup) hdown hv hrounds
  unfold Decimal.toFloat
  dsimp only
  rw [if_neg (by simpa using hdigits.ne'), if_neg hnotHuge, if_neg hnotTiny]
  exact congrArg (fun n => Float.ofBits (UInt64.ofNat n)) hbits

end Text
end LogHarvest
