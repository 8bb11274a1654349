import DynamicMembers.Number.Binary64
import Mathlib.Algebra.Order.Round
import Mathlib.Data.Rat.Floor
import Mathlib.Tactic.Linarith

/-! # Nearest integers

A floating-point number that is finite stands for a rational number, exactly. The integer made
of it is the one nearest to that, and of two that are equally near the even one. By this there is
no more than one such integer (`RoundsTo.unique`), and the computation, which never leaves the
natural numbers, comes to it (`Binary64.exists_roundsTo_toInt?`).
-/
namespace DynamicMembers

/-- The integer is nearest to the number, and it is even if another is as near. -/
structure RoundsTo (x : ℚ) (i : ℤ) : Prop where
  near : |x - i| ≤ 1 / 2
  even : |x - i| = 1 / 2 → Even i

namespace RoundsTo

variable {x : ℚ} {i j : ℤ}

theorem intCast (i : ℤ) : RoundsTo i i where
  near := by norm_num
  even h := by norm_num at h

theorem neg (h : RoundsTo x i) : RoundsTo (-x) (-i) := by
  have hdist : |-x - ((-i : ℤ) : ℚ)| = |x - i| := by
    rw [← abs_neg]
    push_cast
    ring_nf
  exact ⟨hdist ▸ h.near, fun htie => (h.even (hdist ▸ htie)).neg⟩

theorem unique (hi : RoundsTo x i) (hj : RoundsTo x j) : i = j := by
  by_contra hne
  have hapart : (1 : ℚ) ≤ |(i : ℚ) - j| := by
    have h : (1 : ℤ) ≤ |i - j| := Int.one_le_abs (sub_ne_zero.mpr hne)
    exact_mod_cast h
  have htriangle : |(i : ℚ) - j| ≤ |x - i| + |x - j| := by
    rw [abs_sub_comm x i]
    exact abs_sub_le (i : ℚ) x j
  -- So the number is in the middle between the two, and both of them would be even.
  have hdiff : |(i : ℚ) - j| = 1 := by linarith [hi.near, hj.near]
  have hi' : Even i := hi.even (by linarith [hi.near, hj.near])
  have hj' : Even j := hj.even (by linarith [hi.near, hj.near])
  have hodd : |i - j| = 1 := by exact_mod_cast hdiff
  have hsub : Even |i - j| := even_abs.mpr (hi'.sub hj')
  rw [hodd] at hsub
  exact absurd hsub (by decide)

end RoundsTo

/-! ## Rounded quotients -/

/-- Half a unit away there is another neighbour, so this one is even. -/
theorem roundDiv_even_of_tie {n d : Nat} (hd : 0 < d)
    (htie : 2 * n = 2 * (roundDiv n d * d) + d ∨ 2 * (roundDiv n d * d) = 2 * n + d) :
    Even (roundDiv n d) := by
  have hn : d * (n / d) + n % d = n := Nat.div_add_mod n d
  have hr : n % d < d := Nat.mod_lt n hd
  have hdown : n / d * d = d * (n / d) := Nat.mul_comm _ _
  have hup : (n / d + 1) * d = d * (n / d) + d := by rw [Nat.add_mul, Nat.one_mul, hdown]
  rw [Nat.even_iff]
  unfold roundDiv at htie ⊢
  split at htie
  next h =>
    rw [if_pos h]
    simp only [Bool.or_eq_true, decide_eq_true_eq, Bool.and_eq_true, beq_iff_eq] at h
    omega
  next h =>
    rw [if_neg h]
    simp only [Bool.or_eq_true, decide_eq_true_eq, Bool.and_eq_true, beq_iff_eq, not_or] at h
    omega

theorem roundsTo_roundDiv (n : Nat) {d : Nat} (hd : 0 < d) :
    RoundsTo ((n : ℚ) / d) (roundDiv n d) := by
  obtain ⟨hlow, hhigh⟩ := roundDiv_near (n := n) hd
  have hd' : (0 : ℚ) < d := by exact_mod_cast hd
  have hlow' : 2 * (n : ℚ) ≤ 2 * (roundDiv n d * d) + d := by exact_mod_cast hlow
  have hhigh' : 2 * ((roundDiv n d : ℚ) * d) ≤ 2 * n + d := by exact_mod_cast hhigh
  have hdist : (n : ℚ) / d - ((roundDiv n d : ℤ) : ℚ) = (n - roundDiv n d * d) / d := by
    rw [sub_div, mul_div_cancel_right₀ _ hd'.ne', Int.cast_natCast]
  constructor
  · rw [hdist, abs_div, abs_of_pos hd', div_le_iff₀ hd', abs_le]
    constructor <;> linarith
  · intro htie
    rw [hdist, abs_div, abs_of_pos hd', div_eq_iff hd'.ne', abs_eq (by linarith)] at htie
    have hhalf : 2 * n = 2 * (roundDiv n d * d) + d ∨ 2 * (roundDiv n d * d) = 2 * n + d := by
      rcases htie with h | h
      · left
        have : 2 * (n : ℚ) = 2 * (roundDiv n d * d) + d := by linarith
        exact_mod_cast this
      · right
        have : 2 * ((roundDiv n d : ℚ) * d) = 2 * n + d := by linarith
        exact_mod_cast this
    exact_mod_cast roundDiv_even_of_tie hd hhalf

/-! ## Floating-point numbers -/

namespace Binary64

/-- What a finite number stands for. -/
def value? : Binary64 → Option ℚ
  | finite negative exponent fraction =>
    let magnitude : ℚ := significand exponent fraction * 2 ^ power exponent
    some (if negative then -magnitude else magnitude)
  | _ => none

/-- The integer without its sign that is made of a magnitude is nearest to it. -/
theorem roundsTo_magnitude (m : Nat) (q : ℤ) :
    RoundsTo (m * 2 ^ q)
      ((if q ≥ 0 then m * Nat.pow 2 q.toNat else roundDiv m (Nat.pow 2 (-q).toNat) : Nat) : ℤ) := by
  split
  next hq =>
    have hpow : (m : ℚ) * 2 ^ q = ((m * Nat.pow 2 q.toNat : Nat) : ℤ) := by
      conv_lhs => rw [← Int.toNat_of_nonneg hq, zpow_natCast]
      push_cast [Nat.pow_eq]
      rfl
    rw [hpow]
    exact .intCast _
  next hq =>
    have hpow : (m : ℚ) * 2 ^ q = (m : ℚ) / (Nat.pow 2 (-q).toNat : Nat) := by
      conv_lhs => rw [← neg_neg q, ← Int.toNat_of_nonneg (show 0 ≤ -q by omega), zpow_neg,
        zpow_natCast, ← div_eq_mul_inv]
      push_cast [Nat.pow_eq]
      rfl
    rw [hpow]
    exact roundsTo_roundDiv m (Nat.pow_pos (by decide))

/-- A number that stands for something becomes an integer nearest to it. -/
theorem exists_roundsTo_toInt? {x : Binary64} {r : ℚ} (h : x.value? = some r) :
    ∃ i, x.toInt? = some i ∧ RoundsTo r i := by
  cases x with
  | nan | infinite => cases h
  | finite negative exponent fraction =>
    cases h
    have hmagnitude := roundsTo_magnitude (significand exponent fraction) (power exponent)
    cases negative with
    | false => exact ⟨_, rfl, hmagnitude⟩
    | true => exact ⟨_, rfl, hmagnitude.neg⟩

theorem toInt?_eq_none {x : Binary64} (h : x.value? = none) : x.toInt? = none := by
  cases x with
  | nan | infinite => rfl
  | finite negative exponent fraction => cases h

end Binary64

end DynamicMembers
