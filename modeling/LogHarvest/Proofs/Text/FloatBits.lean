import Mathlib
import LogHarvest.Proofs.Text.Nearest

/-!
# Numbers and their bits

A number above zero is infinite, or its bits are those of a mantissa and an exponent.
-/

namespace LogHarvest
namespace Text

open Float.Model (Format UnpackedFloat)
open Float.Model.UnpackedFloat

/-!
## The parts of the bits
-/

theorem toNat_unpackMantissa (b : BitVec Format.binary64.numBits) :
    (unpackMantissa b).toNat = b.toNat % 2 ^ 52 := by
  simp [unpackMantissa, BitVec.extractLsb_toNat]

theorem toNat_unpackExponent (b : BitVec Format.binary64.numBits) :
    (unpackExponent b).toNat = b.toNat / 2 ^ 52 % 2 ^ 11 := by
  simp [unpackExponent, BitVec.extractLsb_toNat, Nat.shiftRight_eq_div_pow]

theorem toNat_unpackSign (b : BitVec Format.binary64.numBits) :
    (unpackSign b).toNat = b.toNat / 2 ^ 63 % 2 := by
  simp [unpackSign, BitVec.extractLsb_toNat, Nat.shiftRight_eq_div_pow]

/-!
## Numbers above zero
-/

theorem proper_of_shape {bits : Nat} {b : Binary}
    (hshape : FloatShape.ofBits bits = .finite false b) (hsize : bits < 2 ^ 64) :
    b.Proper ∧ b.bits = bits := by
  unfold FloatShape.ofBits at hshape
  simp only [show Nat.pow 2 63 = 2 ^ 63 from rfl, show Nat.pow 2 52 = 2 ^ 52 from rfl,
    show Nat.pow 2 11 = 2 ^ 11 from rfl, beq_iff_eq] at hshape
  split at hshape
  · split at hshape <;> cases hshape
  · rename_i hfinite
    split at hshape
    · rename_i hsmall
      split at hshape
      · cases hshape
      · rename_i hfraction
        simp only [FloatShape.finite.injEq, beq_eq_false_iff_ne] at hshape
        obtain ⟨hsign, rfl⟩ := hshape
        refine ⟨⟨?_, ?_, ?_, ?_, ?_, ?_⟩, ?_⟩
        · show 0 < bits % 2 ^ 52
          omega
        · show bits % 2 ^ 52 < 2 ^ 53
          omega
        · show (-1074 : ℤ) ≤ -1074
          omega
        · show (-1074 : ℤ) ≤ 971
          omega
        · intro _
          rfl
        · simp
        · show (-1074 + 1074 : ℤ).toNat * 2 ^ 52 + bits % 2 ^ 52 = bits
          omega
    · rename_i hnormal
      simp only [FloatShape.finite.injEq, beq_eq_false_iff_ne] at hshape
      obtain ⟨hsign, rfl⟩ := hshape
      refine ⟨⟨?_, ?_, ?_, ?_, ?_, ?_⟩, ?_⟩
      · show 0 < 2 ^ 52 + bits % 2 ^ 52
        omega
      · show 2 ^ 52 + bits % 2 ^ 52 < 2 ^ 53
        omega
      · show (-1074 : ℤ) ≤ (bits / 2 ^ 52 % 2 ^ 11 : ℕ) - 1075
        omega
      · show ((bits / 2 ^ 52 % 2 ^ 11 : ℕ) : ℤ) - 1075 ≤ 971
        omega
      · intro hless
        have hless : 2 ^ 52 + bits % 2 ^ 52 < 2 ^ 52 := hless
        omega
      · show (bits % 2 ^ 52 == 0 && bits / 2 ^ 52 % 2 ^ 11 != 1) = true ↔
          2 ^ 52 + bits % 2 ^ 52 = 2 ^ 52 ∧ ((bits / 2 ^ 52 % 2 ^ 11 : ℕ) : ℤ) - 1075 ≠ -1074
        simp only [Bool.and_eq_true, beq_iff_eq, bne_iff_ne]
        omega
      · show (((bits / 2 ^ 52 % 2 ^ 11 : ℕ) : ℤ) - 1075 + 1074).toNat * 2 ^ 52 +
          (2 ^ 52 + bits % 2 ^ 52) = bits
        omega

theorem toNat_of_positive {v : BitVec 1} (hsign : Sign.ofBitVec v = .positive) : v.toNat = 0 := by
  unfold Sign.ofBitVec at hsign
  split at hsign
  · rename_i hzero
    rw [hzero]
    rfl
  · cases hsign

theorem toBits_zero : (0 : Float).toBits = 0 := by decide +kernel

theorem toBits_infinite : (1 / 0 : Float).toBits = 0x7FF0000000000000 := by decide +kernel

theorem unpack_of_pos {x : Float} (hpos : 0 < x) :
    unpack .binary64 x.toBits.toBitVec = .infinity .positive ∨
      ∃ m e hm, unpack .binary64 x.toBits.toBitVec = .finite .positive m e hm := by
  have hzero : unpack .binary64 (0 : Float).toBits.toBitVec = .zero .positive := by
    rw [toBits_zero]
    rfl
  have hless : (unpack .binary64 (0 : Float).toBits.toBitVec).lt
      (unpack .binary64 x.toBits.toBitVec) = true := of_decide_eq_true hpos
  rw [hzero] at hless
  cases hunpack : unpack .binary64 x.toBits.toBitVec with
  | infinity sign =>
      cases sign with
      | positive => exact .inl rfl
      | negative => rw [hunpack] at hless; cases hless
  | notANumber => rw [hunpack] at hless; cases hless
  | zero sign => rw [hunpack] at hless; cases hless
  | finite sign m e hm =>
      cases sign with
      | positive => exact .inr ⟨m, e, hm, rfl⟩
      | negative => rw [hunpack] at hless; cases hless

/-- The bits of a positive finite number: neither all ones in the exponent nor zeros throughout. -/
theorem bits_of_finite {b : BitVec Format.binary64.numBits} {m : Nat} {e : ℤ} {hm : 0 < m}
    (hfinite : unpack .binary64 b = .finite .positive m e hm) :
    b.toNat / 2 ^ 63 % 2 = 0 ∧ b.toNat / 2 ^ 52 % 2 ^ 11 ≠ 2047 ∧
      (b.toNat / 2 ^ 52 % 2 ^ 11 = 0 → b.toNat % 2 ^ 52 ≠ 0) := by
  rw [← toNat_unpackSign, ← toNat_unpackExponent, ← toNat_unpackMantissa]
  unfold unpack at hfinite
  dsimp only at hfinite
  split at hfinite
  · split at hfinite <;> cases hfinite
  · rename_i hnotAll
    have hnotAll : (unpackExponent b).toNat ≠ 2047 :=
      fun hall => hnotAll (BitVec.eq_of_toNat_eq hall)
    split at hfinite
    · split at hfinite
      · cases hfinite
      · rename_i hsome
        have hsign := toNat_of_positive (UnpackedFloat.finite.inj hfinite).1
        exact ⟨hsign, hnotAll, fun _ hnone => hsome (BitVec.eq_of_toNat_eq hnone)⟩
    · rename_i hlarge
      have hsign := toNat_of_positive (UnpackedFloat.finite.inj hfinite).1
      exact ⟨hsign, hnotAll, fun hsmall => absurd (BitVec.eq_of_toNat_eq hsmall) hlarge⟩

theorem shape_of_pos {x : Float} (hpos : 0 < x) :
    x = 1 / 0 ∨ x.isFinite = true ∧ ∃ b, FloatShape.of x = .finite false b := by
  rcases unpack_of_pos hpos with hinfinite | ⟨m, e, hm, hfinite⟩
  · left
    have hwhole : pack .binary64 (unpack .binary64 x.toBits.toBitVec) = x.toBits.toBitVec :=
      pack_unpack_of_valid x.toModel.valid
    rw [hinfinite] at hwhole
    have hbits : x.toBits = (1 / 0 : Float).toBits := by
      rw [toBits_infinite]
      exact UInt64.toBitVec_inj.1 hwhole.symm
    exact Float.toBits_inj.1 hbits
  · right
    have hsize : x.toBits.toNat < 2 ^ 64 := x.toBits.toNat_lt
    have hisFinite : (unpack .binary64 x.toBits.toBitVec).isFinite = true := by
      rw [hfinite]
      rfl
    refine ⟨hisFinite, ?_⟩
    obtain ⟨hsign, hnotAll, hsome⟩ := bits_of_finite hfinite
    rw [UInt64.toNat_toBitVec] at hsign hnotAll hsome
    have hpositive : (x.toBits.toNat / 2 ^ 63 == 1) = false := by
      rw [beq_eq_false_iff_ne]
      omega
    unfold FloatShape.of FloatShape.ofBits
    simp only [show Nat.pow 2 63 = 2 ^ 63 from rfl, show Nat.pow 2 52 = 2 ^ 52 from rfl,
      show Nat.pow 2 11 = 2 ^ 11 from rfl, beq_iff_eq]
    rw [if_neg hnotAll, hpositive]
    split
    · rename_i hsmall
      rw [if_neg (hsome hsmall)]
      exact ⟨_, rfl⟩
    · exact ⟨_, rfl⟩

end Text
end LogHarvest
