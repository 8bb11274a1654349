import DynamicMembers.Number.Reading
import DynamicMembers.Proofs.Number.Nearest
import Mathlib.Data.List.TakeWhile
import Mathlib.Data.Nat.Digits.Defs

/-! # Whole numbers

A whole number is read from its digits. From `2 ^ 53` on, the floating-point numbers are whole
numbers themselves, so what such a number is rounded to is again an integer, and a multiple of a
power of two (`Binary64.toInt?_ofQuotient_one`).
-/
namespace DynamicMembers

/-! ## Digits -/

/-- The number that digits stand for, the last of them for ones. -/
def decimalValue (digits : List Char) : ℕ :=
  Nat.ofDigits 10 (digits.reverse.map fun c => c.toNat - '0'.toNat)

theorem digitsValue_eq (digits : List Char) : digitsValue digits = decimalValue digits := by
  rw [decimalValue, Nat.ofDigits_eq_foldr, List.foldr_map, List.foldr_reverse, digitsValue]
  congr 1
  funext n c
  simp only [Nat.cast_id]
  omega

/-- The characters are the digits of an integer, behind a sign or none. -/
inductive Spells : List Char → ℤ → Prop
  | plain {digits : List Char} (hne : digits ≠ []) (h : ∀ c ∈ digits, c.isDigit = true) :
      Spells digits (decimalValue digits)
  | plus {digits : List Char} (hne : digits ≠ []) (h : ∀ c ∈ digits, c.isDigit = true) :
      Spells ('+' :: digits) (decimalValue digits)
  | minus {digits : List Char} (hne : digits ≠ []) (h : ∀ c ∈ digits, c.isDigit = true) :
      Spells ('-' :: digits) (-decimalValue digits)

namespace Spells

variable {cs : List Char} {i : ℤ}

theorem splitSign (h : Spells cs i) : ∃ negative digits,
    DynamicMembers.splitSign cs = (negative, digits) ∧ digits ≠ [] ∧
      (∀ c ∈ digits, c.isDigit = true) ∧
      i = if negative then -(digitsValue digits : ℤ) else digitsValue digits := by
  simp only [digitsValue_eq]
  cases h with
  | plain hne h =>
    refine ⟨false, cs, ?_, hne, h, rfl⟩
    -- The first character is a digit and no sign.
    unfold DynamicMembers.splitSign
    split
    · exact absurd (h '-' (List.mem_cons_self ..)) (by decide)
    · exact absurd (h '+' (List.mem_cons_self ..)) (by decide)
    · rfl
  | plus hne h => exact ⟨false, _, rfl, hne, h, rfl⟩
  | minus hne h => exact ⟨true, _, rfl, hne, h, rfl⟩

theorem readInt (h : Spells cs i) : DynamicMembers.readInt cs = some i := by
  obtain ⟨negative, digits, hsplit, hne, hdigits, rfl⟩ := h.splitSign
  have hempty : digits.isEmpty = false := List.isEmpty_eq_false_iff.mpr hne
  have hall : digits.all Char.isDigit = true := List.all_eq_true.mpr hdigits
  simp [DynamicMembers.readInt, hsplit, hempty, hall]

end Spells

theorem toLower_of_isDigit {c : Char} (h : c.isDigit = true) : c.toLower = c := by
  unfold Char.toLower
  refine dif_neg fun ⟨hlow, _⟩ => ?_
  simp only [Char.isDigit, Bool.and_eq_true, decide_eq_true_eq, ge_iff_le,
    UInt32.le_iff_toNat_le] at h hlow
  have hnine : '9'.val.toNat < 'A'.val.toNat := by decide
  omega

/-- Digits are no name of a number, and have neither a point nor an exponent. -/
theorem readMagnitude_digits (negative : Bool) {digits : List Char} (hne : digits ≠ [])
    (h : ∀ c ∈ digits, c.isDigit = true) :
    readMagnitude negative digits = some (ofDecimal negative (digitsValue digits) 0) := by
  obtain ⟨first, rest, rfl⟩ := List.exists_cons_of_ne_nil hne
  have hfirst : first.isDigit = true := h first (List.mem_cons_self ..)
  have hname (c : Char) (cs : List Char) (hc : c.isDigit = false) :
      ((first :: rest).map Char.toLower == c :: cs) = false := by
    rw [List.map_cons, toLower_of_isDigit hfirst, List.cons_beq_cons, Bool.and_eq_false_iff]
    left
    rw [beq_eq_false_iff_ne]
    rintro rfl
    exact absurd hfirst (by rw [hc]; decide)
  have htake : (first :: rest).takeWhile Char.isDigit = first :: rest :=
    List.takeWhile_eq_self_iff.mpr h
  have hdrop : (first :: rest).dropWhile Char.isDigit = [] :=
    List.dropWhile_eq_nil_iff.mpr h
  have hinf : ((first :: rest).map Char.toLower == "inf".toList) = false := hname 'i' _ rfl
  have hinfinity : ((first :: rest).map Char.toLower == "infinity".toList) = false :=
    hname 'i' _ rfl
  have hnan : ((first :: rest).map Char.toLower == "nan".toList) = false := hname 'n' _ rfl
  simp only [readMagnitude, hinf, hinfinity, hnan, htake, hdrop]
  simp [readExponent]

/-- A whole number is read as the floating-point number nearest to it. -/
theorem Spells.readFloat {cs : List Char} {i : ℤ} (h : Spells cs i) : ∃ negative : Bool,
    DynamicMembers.readFloat cs = some (ofDecimal negative i.natAbs 0) ∧
      i = if negative then -(i.natAbs : ℤ) else i.natAbs := by
  obtain ⟨negative, digits, hsplit, hne, hdigits, rfl⟩ := h.splitSign
  refine ⟨negative, ?_, by cases negative <;> simp⟩
  have habs : (if negative then -(digitsValue digits : ℤ) else digitsValue digits).natAbs =
      digitsValue digits := by
    cases negative <;> simp
  rw [DynamicMembers.readFloat, hsplit, habs]
  exact readMagnitude_digits negative hne hdigits

namespace Binary64

/-! ## Large whole numbers as floating-point numbers -/

/-- The significand of the least number of a power stands for half as much with the next one. -/
theorem carry_significand {q m : ℕ} (hlow : fractions ≤ m) (hhigh : m ≤ 2 * fractions) :
    (fractions + m % fractions) * 2 ^ (q + m / fractions - 1) = m * 2 ^ q := by
  have hm : fractions * (m / fractions) + m % fractions = m := Nat.div_add_mod m fractions
  rcases Nat.eq_or_lt_of_le hhigh with hcarry | hwhole
  · have hquotient : m / fractions = 2 := by rw [hcarry]; rfl
    have hrest : m % fractions = 0 := by rw [hcarry]; rfl
    rw [hquotient, hrest, Nat.add_zero, hcarry, show q + 2 - 1 = q + 1 by omega, pow_succ]
    ring
  · have hquotient : m / fractions = 1 := by
      rw [Nat.div_eq_iff (by decide)]
      omega
    rw [hquotient, Nat.mul_one] at hm
    rw [hquotient, hm, Nat.add_sub_cancel]

/-- A whole number with a significand of full length is kept, if its power is not too high. -/
theorem toInt?_ofRank (negative : Bool) {q m : ℕ} (hlow : fractions ≤ m)
    (hhigh : m ≤ 2 * fractions) :
    (ofRank negative ((q + 1074) * fractions + m)).toInt? =
      if q + 1074 + m / fractions < 2047 then
        some (if negative then -((m * 2 ^ q : ℕ) : ℤ) else (m * 2 ^ q : ℕ))
      else none := by
  have hexponent : ((q + 1074) * fractions + m) / fractions = q + 1074 + m / fractions := by
    rw [Nat.mul_comm, Nat.mul_add_div (by decide)]
  have hfraction : ((q + 1074) * fractions + m) % fractions = m % fractions := by
    rw [Nat.mul_comm, Nat.mul_add_mod]
  have hcarry := carry_significand (q := q) hlow hhigh
  have hpositive : 1 ≤ m / fractions := (Nat.one_le_div_iff (by decide)).mpr hlow
  simp only [ofRank, hexponent, hfraction]
  split
  · have hpower : ((max (q + 1074 + m / fractions) 1 : ℕ) : ℤ) - 1075 =
        ((q + m / fractions - 1 : ℕ) : ℤ) := by omega
    have hnormal : q + 1074 + m / fractions ≠ 0 := by omega
    simp only [toInt?, significand, power, hpower, hnormal, if_false, Int.toNat_natCast, ge_iff_le,
      Int.natCast_nonneg, if_true, Nat.pow_eq, hcarry]
  · rfl

/-- The unit is such that a significand has 53 bits. -/
theorem unitPower_one_eq {n : ℕ} (hne : n ≠ 0) : unitPower n 1 = (n.log2 : ℤ) - 52 := by
  have hnotBelow : ¬ n < 1 * Nat.pow 2 n.log2 := by
    rw [Nat.one_mul, Nat.pow_eq]
    exact not_lt.mpr (Nat.log2_self_le hne)
  have hone : Nat.log2 1 = 0 := by decide
  simp only [unitPower, hone, Nat.cast_zero, sub_zero, Int.toNat_natCast, hnotBelow, ge_iff_le,
    Int.natCast_nonneg, if_true, if_false]
  omega

/-- All bits of a large whole number but for the first 53 are rounded off. -/
theorem unitPower_one {n : ℕ} (hn : 2 ^ 53 ≤ n) : unitPower n 1 = ((n.log2 - 52 : ℕ) : ℤ) := by
  have hlog : 53 ≤ n.log2 := (Nat.le_log2 (by omega)).mpr hn
  rw [unitPower_one_eq (by omega)]
  omega

/-- What is left of a large whole number is a significand of full length. -/
theorem roundDiv_significand {n : ℕ} (hn : 2 ^ 53 ≤ n) :
    fractions ≤ roundDiv n (2 ^ (n.log2 - 52)) ∧
      roundDiv n (2 ^ (n.log2 - 52)) ≤ 2 * fractions := by
  have hne : n ≠ 0 := by omega
  have hlog : 53 ≤ n.log2 := (Nat.le_log2 hne).mpr hn
  have hunit : 2 ^ (n.log2 - 52) * fractions = 2 ^ n.log2 := by
    rw [show fractions = 2 ^ 52 from rfl, ← pow_add, Nat.sub_add_cancel (by omega)]
  have hlow : fractions ≤ n / 2 ^ (n.log2 - 52) := by
    rw [Nat.le_div_iff_mul_le (by positivity), Nat.mul_comm, hunit]
    exact Nat.log2_self_le hne
  have hhigh : n / 2 ^ (n.log2 - 52) < 2 * fractions := by
    rw [Nat.div_lt_iff_lt_mul (by positivity), Nat.mul_assoc, Nat.mul_comm fractions, hunit,
      ← pow_succ']
    exact Nat.lt_log2_self
  unfold roundDiv
  split <;> omega

/-- The integer made of the floating-point number nearest to a large whole number is a multiple of a
power of two, or there is none. -/
theorem toInt?_ofQuotient_one (negative : Bool) {n : ℕ} (hn : 2 ^ 53 ≤ n) :
    (ofQuotient negative n 1).toInt? =
      let q := n.log2 - 52
      let m := roundDiv n (2 ^ q)
      if q + 1074 + m / fractions < 2047 then
        some (if negative then -((m * 2 ^ q : ℕ) : ℤ) else (m * 2 ^ q : ℕ))
      else none := by
  obtain ⟨hlow, hhigh⟩ := roundDiv_significand hn
  have hne : n ≠ 0 := by omega
  have hunit := unitPower_one hn
  have hrank : ((n.log2 - 52 : ℕ) + 1074 : ℤ).toNat = n.log2 - 52 + 1074 := by omega
  rw [ofQuotient, if_neg hne]
  simp only [hunit, ge_iff_le, Int.natCast_nonneg, if_true, Int.toNat_natCast, Nat.one_mul,
    Nat.pow_eq, hrank, toInt?_ofRank negative hlow hhigh]

/-! ## At the limit of 64 bits -/

/-- Up to half a unit above the limit a whole number is rounded down to the limit. -/
theorem roundDiv_at_limit {n : ℕ} (hlow : 2 ^ 63 ≤ n) (hhigh : n ≤ 2 ^ 63 + 1024) :
    n.log2 - 52 = 11 ∧ roundDiv n (2 ^ (n.log2 - 52)) = fractions := by
  have hlog : n.log2 = 63 := by
    rw [Nat.log2_eq_iff (by omega)]
    omega
  rw [hlog]
  refine ⟨rfl, ?_⟩
  have hfractions : fractions = 2 ^ 52 := rfl
  have hquotient : n / 2 ^ (63 - 52) = fractions := by omega
  have hrest : n % 2 ^ (63 - 52) = n - 2 ^ 63 := by omega
  rw [roundDiv, hquotient, hrest, if_pos]
  simp only [Bool.or_eq_true, decide_eq_true_eq, Bool.and_eq_true, beq_iff_eq]
  omega

/-- Further above it a whole number is not rounded down to the limit. -/
theorem limit_lt_roundDiv {n : ℕ} (h : 2 ^ 63 + 1024 < n) :
    2 ^ 63 < roundDiv n (2 ^ (n.log2 - 52)) * 2 ^ (n.log2 - 52) := by
  have hlog : 63 ≤ n.log2 := (Nat.le_log2 (by omega)).mpr (by omega)
  rcases Nat.eq_or_lt_of_le hlog with hsame | hmore
  · have hnear := (roundDiv_near (n := n) (d := 2 ^ (63 - 52)) (by decide)).1
    rw [← hsame]
    omega
  · obtain ⟨hsignificand, -⟩ := roundDiv_significand (n := n) (by omega)
    have hunit : 2 ^ 12 ≤ 2 ^ (n.log2 - 52) := Nat.pow_le_pow_right (by decide) (by omega)
    calc 2 ^ 63 < fractions * 2 ^ 12 := by decide
      _ ≤ roundDiv n (2 ^ (n.log2 - 52)) * 2 ^ (n.log2 - 52) :=
        Nat.mul_le_mul hsignificand hunit

end Binary64

end DynamicMembers
