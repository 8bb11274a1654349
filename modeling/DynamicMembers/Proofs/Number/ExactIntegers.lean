import DynamicMembers.Proofs.Number.WholeNumbers

/-! # Integers among the floating-point numbers

Numbers compare by what they stand for: two that are finite are the same if and only if that is one
rational number (`Binary64.same_iff`), for there is only one way to write it but for the sign of
zero. An integer below `2 ^ 53` stands for itself when it becomes a floating-point number, and no
other integer gets below that limit by becoming one. So where two integers become the same number,
both of them are beyond the limit (`Binary64.le_natAbs_of_same`).
-/
namespace DynamicMembers.Binary64

variable {x y : Binary64} {exponent exponent' : Fin 2047} {fraction fraction' : Fin fractions}

/-! ## One way to write a number -/

theorem significand_lt (exponent : Fin 2047) (fraction : Fin fractions) :
    significand exponent fraction < 2 * fractions := by
  have := fraction.isLt
  unfold significand
  split <;> omega

theorem significand_eq_zero_iff :
    significand exponent fraction = 0 ↔ exponent.val = 0 ∧ fraction.val = 0 := by
  have : 0 < fractions := by decide
  unfold significand
  split <;> omega

/-- The larger of two exponents leaves its significand no room to make up for the difference. -/
theorem eq_of_magnitude_eq_of_le (hle : power exponent ≤ power exponent')
    (h : (significand exponent fraction : ℚ) * 2 ^ power exponent =
      significand exponent' fraction' * 2 ^ power exponent') :
    exponent = exponent' ∧ fraction = fraction' := by
  obtain ⟨k, hk⟩ := Int.le.dest hle
  have hscaled : significand exponent fraction = significand exponent' fraction' * 2 ^ k := by
    rw [← hk, zpow_add₀ two_ne_zero, zpow_natCast, mul_comm (2 ^ power exponent), ← mul_assoc] at h
    exact_mod_cast mul_right_cancel₀ (zpow_ne_zero _ two_ne_zero) h
  have hlt := significand_lt exponent fraction
  have hf := fraction.isLt
  have hf' := fraction'.isLt
  rw [power, power] at hk
  rcases Nat.eq_zero_or_pos k with rfl | hpos
  · rw [pow_zero, Nat.mul_one] at hscaled
    unfold significand at hscaled
    split at hscaled <;> split at hscaled <;> constructor <;> ext <;> omega
  · -- With a larger exponent the significand has its full length, and twice that is too much.
    have hfull : fractions ≤ significand exponent' fraction' := by
      unfold significand
      split <;> omega
    have htwice : 2 * fractions ≤ significand exponent' fraction' * 2 ^ k := by
      rw [Nat.mul_comm 2]
      exact Nat.mul_le_mul hfull (Nat.le_self_pow hpos.ne' 2)
    omega

theorem eq_of_magnitude_eq
    (h : (significand exponent fraction : ℚ) * 2 ^ power exponent =
      significand exponent' fraction' * 2 ^ power exponent') :
    exponent = exponent' ∧ fraction = fraction' := by
  rcases le_total (power exponent) (power exponent') with hle | hle
  · exact eq_of_magnitude_eq_of_le hle h
  · obtain ⟨he, hf⟩ := eq_of_magnitude_eq_of_le hle h.symm
    exact ⟨he.symm, hf.symm⟩

/-! ## Numbers that are the same -/

theorem isZero_iff : x.isZero = true ↔ x.value? = some 0 := by
  cases x with
  | nan | infinite => simp [isZero, value?]
  | finite negative exponent fraction =>
    have hpow : (2 : ℚ) ^ power exponent ≠ 0 := zpow_ne_zero _ two_ne_zero
    rw [value?, Option.some.injEq, isZero]
    cases negative <;> simp [hpow, significand_eq_zero_iff]

theorem magnitude_nonneg (exponent : Fin 2047) (fraction : Fin fractions) :
    (0 : ℚ) ≤ significand exponent fraction * 2 ^ power exponent :=
  mul_nonneg (Nat.cast_nonneg _) (zpow_nonneg two_pos.le _)

/-- Only zero has a sign that does not matter. -/
theorem eq_or_zero_of_value?_eq {r : ℚ} (hx : x.value? = some r) (hy : y.value? = some r) :
    x = y ∨ r = 0 := by
  cases x with
  | nan | infinite => cases hx
  | finite negative exponent fraction =>
    cases y with
    | nan | infinite => cases hy
    | finite negative' exponent' fraction' =>
      have hm := magnitude_nonneg exponent fraction
      have hm' := magnitude_nonneg exponent' fraction'
      simp only [value?, Option.some.injEq] at hx hy
      by_cases hsign : negative = negative'
      · subst hsign
        left
        obtain ⟨rfl, rfl⟩ : exponent = exponent' ∧ fraction = fraction' := by
          refine eq_of_magnitude_eq ?_
          split at hx <;> split at hy <;> linarith
        rfl
      · right
        cases negative <;> cases negative' <;>
          simp only [if_true, Bool.false_eq_true, if_false, not_true_eq_false] at hx hy hsign <;>
          linarith

/-- Numbers are the same if they stand for the same, or stand for nothing and are one. -/
theorem same_iff :
    x.same y = true ↔ x = y ∨ ∃ r, x.value? = some r ∧ y.value? = some r := by
  simp only [same, Bool.or_eq_true, Bool.and_eq_true, beq_iff_eq, isZero_iff]
  constructor
  · rintro (h | ⟨hx, hy⟩)
    · exact .inl h
    · exact .inr ⟨0, hx, hy⟩
  · rintro (h | ⟨r, hx, hy⟩)
    · exact .inl h
    · rcases eq_or_zero_of_value?_eq hx hy with h | rfl
      · exact .inl h
      · exact .inr ⟨hx, hy⟩

theorem value?_congr (h : x.same y = true) : x.value? = y.value? := by
  rcases same_iff.mp h with rfl | ⟨r, hx, hy⟩
  · rfl
  · rw [hx, hy]

/-! ## Whole numbers as floating-point numbers -/

/-- A significand of full length is kept with its power, if that is not too high. -/
theorem value?_ofRank (negative : Bool) {q : ℤ} {m : ℕ} (hq : -1074 ≤ q) (hlow : fractions ≤ m)
    (hhigh : m ≤ 2 * fractions) :
    (ofRank negative ((q + 1074).toNat * fractions + m)).value? =
      if (q + 1074).toNat + m / fractions < 2047 then
        some (if negative then -((m : ℚ) * 2 ^ q) else m * 2 ^ q)
      else none := by
  obtain ⟨k, hk⟩ := Int.eq_ofNat_of_zero_le (show 0 ≤ q + 1074 by omega)
  have hpositive : 1 ≤ m / fractions := (Nat.one_le_div_iff (by decide)).mpr hlow
  have hcarry := carry_significand (q := k) hlow hhigh
  rw [hk, Int.toNat_natCast]
  have hexponent : (k * fractions + m) / fractions = k + m / fractions := by
    rw [Nat.mul_comm, Nat.mul_add_div (by decide)]
  have hfraction : (k * fractions + m) % fractions = m % fractions := by
    rw [Nat.mul_comm, Nat.mul_add_mod]
  simp only [ofRank, hexponent, hfraction]
  split
  · have hnormal : k + m / fractions ≠ 0 := by omega
    have hpower : ((max (k + m / fractions) 1 : ℕ) : ℤ) - 1075 =
        ((k + m / fractions - 1 : ℕ) : ℤ) + -1074 := by omega
    have hvalue : ((fractions + m % fractions : ℕ) : ℚ) *
        2 ^ (((k + m / fractions - 1 : ℕ) : ℤ) + -1074) = m * 2 ^ q := by
      rw [zpow_add₀ two_ne_zero, zpow_natCast, ← mul_assoc, show q = (k : ℤ) + -1074 by omega,
        zpow_add₀ two_ne_zero, zpow_natCast, ← mul_assoc]
      congr 1
      exact_mod_cast hcarry
    simp only [value?, significand, power, hnormal, if_false, hpower, hvalue]
  · rfl

theorem value?_ofRank_zero (negative : Bool) : (ofRank negative 0).value? = some 0 := by
  rw [← isZero_iff]
  rfl

/-- With as many zeros behind it as there is room for, a small integer has full length. -/
theorem filled_bounds {n : ℕ} (hne : n ≠ 0) (hn : n < 2 ^ 53) :
    fractions ≤ n * 2 ^ (52 - n.log2) ∧ n * 2 ^ (52 - n.log2) < 2 * fractions := by
  have hlog : n.log2 < 53 := (Nat.log2_lt hne).mpr hn
  constructor
  · calc fractions = 2 ^ n.log2 * 2 ^ (52 - n.log2) := by
          rw [← pow_add, Nat.add_sub_cancel' (by omega)]
          rfl
      _ ≤ n * 2 ^ (52 - n.log2) := Nat.mul_le_mul_right _ (Nat.log2_self_le hne)
  · calc n * 2 ^ (52 - n.log2) < 2 ^ (n.log2 + 1) * 2 ^ (52 - n.log2) :=
          Nat.mul_lt_mul_of_pos_right Nat.lt_log2_self (by positivity)
      _ = 2 * fractions := by
          rw [← pow_add, show n.log2 + 1 + (52 - n.log2) = 53 by omega]
          rfl

theorem ofQuotient_of_lt (negative : Bool) {n : ℕ} (hne : n ≠ 0) (hn : n < 2 ^ 53) :
    ofQuotient negative n 1 =
      ofRank negative (((n.log2 : ℤ) - 52 + 1074).toNat * fractions + n * 2 ^ (52 - n.log2)) := by
  have hlog : n.log2 < 53 := (Nat.log2_lt hne).mpr hn
  simp only [ofQuotient, hne, if_false, unitPower_one_eq hne, roundDiv_one, Nat.one_mul, Nat.pow_eq]
  by_cases hwide : n.log2 = 52
  · simp [hwide, roundDiv_one]
  · have hnarrow : ¬ (n.log2 : ℤ) - 52 ≥ 0 := by omega
    have hroom : (-((n.log2 : ℤ) - 52)).toNat = 52 - n.log2 := by omega
    rw [if_neg hnarrow, hroom]

/-- An integer below the limit fits into a significand. -/
theorem value?_ofQuotient_of_lt (negative : Bool) {n : ℕ} (hn : n < 2 ^ 53) :
    (ofQuotient negative n 1).value? = some (if negative then -(n : ℚ) else n) := by
  rcases Nat.eq_zero_or_pos n with rfl | hpos
  · rw [ofQuotient, if_pos rfl, value?_ofRank_zero]
    simp
  · obtain ⟨hlow, hhigh⟩ := filled_bounds hpos.ne' hn
    have hlog : n.log2 < 53 := (Nat.log2_lt hpos.ne').mpr hn
    have hquotient : n * 2 ^ (52 - n.log2) / fractions = 1 := by
      rw [Nat.div_eq_iff (by decide)]
      omega
    have hvalue : ((n * 2 ^ (52 - n.log2) : ℕ) : ℚ) * 2 ^ ((n.log2 : ℤ) - 52) = n := by
      rw [show (n.log2 : ℤ) - 52 = -((52 - n.log2 : ℕ) : ℤ) by omega, zpow_neg, zpow_natCast]
      push_cast
      rw [mul_assoc, mul_inv_cancel₀ (pow_ne_zero _ two_ne_zero), mul_one]
    rw [ofQuotient_of_lt negative hpos.ne' hn, value?_ofRank negative (by omega) hlow hhigh.le,
      hquotient, if_pos (by omega), hvalue]

/-- A larger integer does not get below the limit by what is rounded off. -/
theorem le_abs_of_value?_ofQuotient (negative : Bool) {n : ℕ} (hn : 2 ^ 53 ≤ n) {r : ℚ}
    (h : (ofQuotient negative n 1).value? = some r) : 2 ^ 53 ≤ |r| := by
  obtain ⟨hlow, hhigh⟩ := roundDiv_significand hn
  have hne : n ≠ 0 := by omega
  have hlog : 53 ≤ n.log2 := (Nat.le_log2 hne).mpr hn
  simp only [ofQuotient, hne, if_false, unitPower_one hn, ge_iff_le, Int.natCast_nonneg, if_true,
    Int.toNat_natCast, Nat.one_mul, Nat.pow_eq] at h
  rw [value?_ofRank negative (by omega) hlow hhigh] at h
  split at h
  · have habs : |r| = ((roundDiv n (2 ^ (n.log2 - 52)) * 2 ^ (n.log2 - 52) : ℕ) : ℚ) := by
      rw [← Option.some.inj h]
      push_cast
      cases negative <;> simp [abs_mul]
    have hlarge : 2 ^ 53 ≤ roundDiv n (2 ^ (n.log2 - 52)) * 2 ^ (n.log2 - 52) := by
      calc 2 ^ 53 = fractions * 2 ^ 1 := rfl
        _ ≤ roundDiv n (2 ^ (n.log2 - 52)) * 2 ^ (n.log2 - 52) :=
          Nat.mul_le_mul hlow (Nat.pow_le_pow_right (by decide) (by omega))
    rw [habs]
    exact_mod_cast hlarge
  · cases h

/-! ## Integers that become the same number -/

variable {i j : ℤ}

theorem value?_ofInt_of_lt (h : i.natAbs < 2 ^ 53) : (ofInt i).value? = some (i : ℚ) := by
  rw [ofInt, value?_ofQuotient_of_lt _ h]
  congr 1
  have habs : ((i.natAbs : ℕ) : ℚ) = |(i : ℚ)| := by
    rw [← Int.cast_natCast, Int.natCast_natAbs, Int.cast_abs]
  by_cases hsign : i < 0
  · have hneg : (i : ℚ) < 0 := by exact_mod_cast hsign
    simp [hsign, habs, abs_of_neg hneg]
  · have hnonneg : (0 : ℚ) ≤ i := by exact_mod_cast not_lt.mp hsign
    simp [hsign, habs, abs_of_nonneg hnonneg]

theorem le_natAbs_of_same (hne : i ≠ j) (h : (ofInt i).same (ofInt j) = true) :
    2 ^ 53 ≤ i.natAbs := by
  by_contra hi
  have hvalue : (ofInt j).value? = some (i : ℚ) :=
    (value?_congr h).symm.trans (value?_ofInt_of_lt (not_le.mp hi))
  by_cases hj : j.natAbs < 2 ^ 53
  · rw [value?_ofInt_of_lt hj, Option.some.injEq] at hvalue
    exact hne (by exact_mod_cast hvalue.symm)
  · have hlarge := le_abs_of_value?_ofQuotient (decide (j < 0)) (not_lt.mp hj) hvalue
    have hlarge' : (2 : ℤ) ^ 53 ≤ |i| := by exact_mod_cast hlarge
    rw [← Int.natCast_natAbs] at hlarge'
    omega

end DynamicMembers.Binary64
