import LogHarvest.Text.Decimal
import Mathlib.Tactic.Ring
import Mathlib.Tactic.ByContra
import Mathlib.Algebra.Order.Ring.Nat

/-!
# Digits

The digits of a number denote the number again.  Zeros in front of them make no
difference, and the count of digits bounds the number from both sides.
-/

namespace LogHarvest
namespace Text

theorem isDigit_digitChar {d : Nat} (hd : d < 10) :
    isDigit d.digitChar = true ∧ digitValue d.digitChar = d := by
  revert d
  decide

theorem isDigit_of_mem_toDigits {n : Nat} {c : Char} (hc : c ∈ Nat.toDigits 10 n) :
    isDigit c = true := by
  induction n using Nat.strong_induction_on with
  | _ n ih =>
      rw [Nat.toDigits_eq_if (by decide)] at hc
      split at hc
      · rename_i hsmall
        rw [List.mem_singleton.1 hc]
        exact (isDigit_digitChar hsmall).1
      · rename_i hlarge
        rcases List.mem_append.1 hc with hfront | hlast
        · exact ih (n / 10) (by omega) hfront
        · rw [List.mem_singleton.1 hlast]
          exact (isDigit_digitChar (Nat.mod_lt n (by decide))).1

theorem digitsValue_append (base : Nat) (xs ys : List Nat) :
    digitsValue base (xs ++ ys) = digitsValue base xs * base ^ ys.length + digitsValue base ys := by
  have hfrom : ∀ n, ys.foldl (fun n d => n * base + d) n =
      n * base ^ ys.length + ys.foldl (fun n d => n * base + d) 0 := by
    induction ys with
    | nil => simp
    | cons d rest ih =>
        intro n
        rw [List.foldl_cons, List.foldl_cons, ih, ih (0 * base + d), List.length_cons, pow_succ]
        ring
  unfold digitsValue
  rw [List.foldl_append]
  exact hfrom _

theorem decimalValue_append (xs ys : List Char) :
    decimalValue (xs ++ ys) = decimalValue xs * 10 ^ ys.length + decimalValue ys := by
  unfold decimalValue
  rw [List.map_append, digitsValue_append, List.length_map]

theorem decimalValue_zeros (k : Nat) : decimalValue (List.replicate k '0') = 0 := by
  induction k with
  | zero => rfl
  | succ k ih =>
      rw [List.replicate_succ', decimalValue_append, ih]
      rfl

theorem decimalValue_toDigits (n : Nat) : decimalValue (Nat.toDigits 10 n) = n := by
  induction n using Nat.strong_induction_on with
  | _ n ih =>
      have hlast : ∀ d < 10, decimalValue [d.digitChar] = d := by decide
      rw [Nat.toDigits_eq_if (by decide)]
      split
      · rename_i hsmall
        exact hlast n hsmall
      · rename_i hlarge
        rw [decimalValue_append, ih (n / 10) (by omega), hlast _ (Nat.mod_lt n (by decide)),
          List.length_singleton, pow_one]
        omega

/-!
## How many digits there are
-/

theorem lt_pow_length_toDigits (n : Nat) : n < 10 ^ (Nat.toDigits 10 n).length :=
  (Nat.length_toDigits_le_iff (by decide) Nat.length_toDigits_pos).1 (Nat.le_refl _)

theorem pow_length_toDigits_le {n : Nat} (hn : 0 < n) :
    10 ^ ((Nat.toDigits 10 n).length - 1) ≤ n := by
  have hpos : 0 < (Nat.toDigits 10 n).length := Nat.length_toDigits_pos
  by_cases hone : (Nat.toDigits 10 n).length = 1
  · rw [hone]
    exact hn
  · by_contra hlt
    have hle := (Nat.length_toDigits_le_iff (by decide) (by omega)).2 (Nat.lt_of_not_le hlt)
    omega

theorem head?_toDigits_ne_zero {n : Nat} (hn : 0 < n) : (Nat.toDigits 10 n).head? ≠ some '0' := by
  have hsingle : ∀ d < 10, 0 < d → d.digitChar ≠ '0' := by decide
  induction n using Nat.strong_induction_on with
  | _ n ih =>
      rw [Nat.toDigits_eq_if (by decide)]
      split
      · rename_i hsmall
        simpa using hsingle n hsmall hn
      · rename_i hlarge
        obtain ⟨c, rest, hfront⟩ := List.exists_cons_of_ne_nil (Nat.toDigits_ne_nil (n := n / 10))
        have hhead := ih (n / 10) (by omega) (by omega)
        rw [hfront] at hhead ⊢
        exact hhead

end Text
end LogHarvest
