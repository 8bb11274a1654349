import DynamicMembers.Proofs.Number.WholeNumbers
import DynamicMembers.Value.Conversion

/-! # Conversion to integers

A floating-point number becomes the integer nearest to it, and a text the integer that it spells,
if 64 bits hold that integer. Two roundings make the conversion go further. The test whether a
rounded number fits compares it with the largest integer as a floating-point number, which is one
more than the largest integer; and a text with too large an integer is read as a
floating-point number instead, which for integers just beyond the limits is the limit itself. So
beyond the range of 64 bits a few numbers are taken for the limit (`Value.convertsToInt`).
-/
namespace DynamicMembers

/-- The nearest integer that 64 bits hold. -/
def limited (i : ℤ) : ℤ :=
  max (-2 ^ 63) (min i (2 ^ 63 - 1))

/-- There is an integer of 64 bits for what is between the bounds, and none for anything else. -/
structure HeldWithin (low high i : ℤ) (held : Option Int64) : Prop where
  inside : low ≤ i → i ≤ high → ∃ n : Int64, n.toInt = limited i ∧ held = some n
  outside : ¬ (low ≤ i ∧ i ≤ high) → held = none

theorem heldWithin_fitInt64 (i : ℤ) : HeldWithin (-2 ^ 63) (2 ^ 63 - 1) i (fitInt64 i) where
  inside hlow hhigh := by
    refine ⟨Int64.ofInt i, ?_, if_pos (by omega)⟩
    rw [Int64.toInt_ofInt_of_le hlow (by omega), limited]
    omega
  outside h := if_neg (by omega)

namespace Binary64

variable {x : Binary64} {i : ℤ}

theorem heldWithin_toInt64? (h : x.toInt? = some i) :
    HeldWithin (-2 ^ 63) (2 ^ 63) i x.toInt64? := by
  have hfit := heldWithin_fitInt64 i
  simp only [toInt64?, h]
  split
  next hlimit =>
    subst hlimit
    exact ⟨fun _ _ => ⟨Int64.maxValue, by decide, rfl⟩, fun h => absurd (by decide) h⟩
  next hother =>
    exact ⟨fun hlow hhigh => hfit.inside hlow (by omega), fun h => hfit.outside (by omega)⟩

theorem toInt64?_eq_none (h : x.toInt? = none) : x.toInt64? = none := by
  simp only [toInt64?, h]

/-- What is beyond a limit is limited as the limit is. -/
theorem limited_eq_of_le (negative : Bool) {n : ℕ} (hn : 2 ^ 63 ≤ n) :
    limited (if negative then -(n : ℤ) else n) =
      limited (if negative then -((2 ^ 63 : ℕ) : ℤ) else (2 ^ 63 : ℕ)) := by
  cases negative <;> simp only [limited, if_true, Bool.false_eq_true, if_false] <;> omega

/-- Half a unit beyond the limits a whole number is still rounded to the limit. -/
theorem heldWithin_ofQuotient (negative : Bool) {n : ℕ} (hn : 2 ^ 63 ≤ n) :
    HeldWithin (-2 ^ 63 - 1024) (2 ^ 63 + 1024) (if negative then -(n : ℤ) else n)
      (ofQuotient negative n 1).toInt64? := by
  have hread := toInt?_ofQuotient_one negative (n := n) (by omega)
  by_cases hhigh : n ≤ 2 ^ 63 + 1024
  · obtain ⟨hunit, hsignificand⟩ := roundDiv_at_limit hn hhigh
    rw [hunit] at hsignificand
    simp only [hunit, hsignificand] at hread
    rw [if_pos (by decide), show fractions * 2 ^ 11 = 2 ^ 63 from rfl] at hread
    have hlimit := heldWithin_toInt64? hread
    obtain ⟨held, hheld, hsome⟩ :=
      hlimit.inside (by cases negative <;> simp) (by cases negative <;> simp)
    refine ⟨fun _ _ => ⟨held, hheld.trans (limited_eq_of_le negative hn).symm, hsome⟩,
      fun houtside => absurd ?_ houtside⟩
    cases negative <;> simp only [if_true, Bool.false_eq_true, if_false] <;> omega
  · have hgreater := limit_lt_roundDiv (not_le.mp hhigh)
    have hnone : (ofQuotient negative n 1).toInt64? = none := by
      dsimp only at hread
      generalize roundDiv n (2 ^ (n.log2 - 52)) * 2 ^ (n.log2 - 52) = rounded at hread hgreater
      split at hread
      · refine (heldWithin_toInt64? hread).outside ?_
        cases negative <;> simp only [if_true, Bool.false_eq_true, if_false] <;> omega
      · exact toInt64?_eq_none hread
    refine ⟨fun hlow hhigh' => absurd ?_ hhigh, fun _ => hnone⟩
    cases negative <;> simp only [if_true, Bool.false_eq_true, if_false] at hlow hhigh' <;> omega

/-- A number with so many digits is infinite, and otherwise it is the whole number. -/
theorem heldWithin_ofDecimal (negative : Bool) {n : ℕ} (hn : 2 ^ 63 ≤ n) :
    HeldWithin (-2 ^ 63 - 1024) (2 ^ 63 + 1024) (if negative then -(n : ℤ) else n)
      (ofDecimal negative n 0).toInt64? := by
  have hne : n ≠ 0 := by omega
  simp only [ofDecimal, hne, if_false, add_zero]
  by_cases hsize : ((Nat.toDigits 10 n).length : ℤ) > 310
  · have hlarge : 2 ^ 63 + 1024 < n := by
      by_contra hsmall
      have hlength := Nat.toDigits_length 10 n 310 (by decide) (by omega)
      omega
    rw [if_pos hsize]
    refine ⟨fun hlow hhigh => absurd hlarge ?_, fun _ => rfl⟩
    cases negative <;> simp only [if_true, Bool.false_eq_true, if_false] at hlow hhigh <;> omega
  · have hfew : ¬ ((Nat.toDigits 10 n).length : ℤ) < -330 := by omega
    simpa only [hsize, hfew, if_false, neg_zero, Int.toNat_zero, Nat.pow_eq, pow_zero, mul_one]
      using heldWithin_ofQuotient negative hn

end Binary64

/-- A text with an integer becomes the integer or, just beyond the limits, the limit. -/
theorem heldWithin_readInt64 {text : String} {i : ℤ} (h : Spells (trimBlank text.toList) i) :
    HeldWithin (-2 ^ 63 - 1024) (2 ^ 63 + 1024) i (readInt64 text) := by
  have hfit := heldWithin_fitInt64 i
  rw [readInt64]
  simp only [h.readInt, Option.bind_some]
  by_cases hin : -2 ^ 63 ≤ i ∧ i ≤ 2 ^ 63 - 1
  · obtain ⟨held, hheld, hsome⟩ := hfit.inside hin.1 hin.2
    rw [hsome]
    exact ⟨fun _ _ => ⟨held, hheld, rfl⟩, fun houtside => absurd (by omega) houtside⟩
  · obtain ⟨negative, hfloat, hsigned⟩ := h.readFloat
    have hwhole := Binary64.heldWithin_ofDecimal negative (n := i.natAbs) (by omega)
    rw [hfit.outside hin, hfloat]
    rwa [← hsigned] at hwhole

/-! ## Values -/

namespace Value

/-- The value becomes the nearest integer of 64 bits for what is between the bounds, and is refused
for anything else. -/
structure ConvertsWithin (write : Value → String) (low high i : ℤ) (v : Value) : Prop where
  inside : low ≤ i → i ≤ high → ∃ n : Int64, n.toInt = limited i ∧
    v.convertTo write .int = .ok (.int n)
  outside : ¬ (low ≤ i ∧ i ≤ high) →
    v.convertTo write .int = .error (v.conversionError write .int)

variable {write : Value → String} {v : Value} {low high i : ℤ}

theorem convertTo_int_of_some {n : Int64} (hv : v.type ≠ .int) (h : v.toInt64? = some n) :
    v.convertTo write .int = .ok (.int n) := by
  simp [convertTo, changeType?, hv, h]

theorem convertTo_int_of_none (hv : v.type ≠ .int) (h : v.toInt64? = none) :
    v.convertTo write .int = .error (v.conversionError write .int) := by
  simp [convertTo, changeType?, hv, h]

theorem convertsWithin_of_heldWithin (hv : v.type ≠ .int)
    (h : HeldWithin low high i v.toInt64?) : v.ConvertsWithin write low high i := by
  refine ⟨fun hlow hhigh => ?_, fun houtside => convertTo_int_of_none hv (h.outside houtside)⟩
  obtain ⟨n, hn, hheld⟩ := h.inside hlow hhigh
  exact ⟨n, hn, convertTo_int_of_some hv hheld⟩

/-- A finite number becomes the integer nearest to it, and a text the integer that it spells, if 64
bits hold it; and further, a number that is rounded to `2 ^ 63` becomes the largest integer, and a
text whose integer is beyond the limits by no more than 1024 becomes the limit. Everything else is
refused. -/
theorem convertsToInt (write : Value → String) :
    (∀ (x : Binary64) (r : ℚ), x.value? = some r → ∃ i, (∀ j, RoundsTo r j ↔ j = i) ∧
      (float x).ConvertsWithin write (-2 ^ 63) (2 ^ 63) i) ∧
    (∀ x : Binary64, x.value? = none →
      (float x).convertTo write .int = .error ((float x).conversionError write .int)) ∧
    ∀ (text : String) (i : ℤ), Spells (trimBlank text.toList) i →
      (string text).ConvertsWithin write (-2 ^ 63 - 1024) (2 ^ 63 + 1024) i := by
  refine ⟨fun x r hvalue => ?_, fun x hvalue => ?_, fun text i h => ?_⟩
  · obtain ⟨i, hread, hround⟩ := Binary64.exists_roundsTo_toInt? hvalue
    refine ⟨i, fun j => ⟨fun hj => hj.unique hround, fun hj => hj ▸ hround⟩, ?_⟩
    exact convertsWithin_of_heldWithin nofun (Binary64.heldWithin_toInt64? hread)
  · have hread := Binary64.toInt?_eq_none hvalue
    exact convertTo_int_of_none nofun (Binary64.toInt64?_eq_none hread)
  · exact convertsWithin_of_heldWithin nofun (heldWithin_readInt64 h)

def twoAndHalf : Binary64 := .finite false ⟨1024, by decide⟩ ⟨0x4000000000000, by decide⟩

/-- Two and a half becomes two, the even one of its neighbours, and a text without its blanks the
integer that it spells. -/
theorem convertsToInt_twoAndHalf :
    (twoAndHalf.value? = some (5 / 2) ∧ RoundsTo (5 / 2) 2 ∧ ∃ n : Int64, n.toInt = limited 2 ∧
      (float twoAndHalf).convertTo (fun _ => "") .int = .ok (.int n)) ∧
    Spells (trimBlank " 7 ".toList) 7 ∧ ∃ n : Int64, n.toInt = limited 7 ∧
      (string " 7 ").convertTo (fun _ => "") .int = .ok (.int n) := by
  obtain ⟨hfloat, -, htext⟩ := convertsToInt fun _ => ""
  have hvalue : twoAndHalf.value? = some (5 / 2) := by
    have hsignificand : Binary64.significand ⟨1024, by decide⟩ ⟨0x4000000000000, by decide⟩ =
        5 * 2 ^ 50 := by
      decide
    have hpower : Binary64.power ⟨1024, by decide⟩ = -51 := by decide
    simp only [twoAndHalf, Binary64.value?, hsignificand, hpower]
    norm_num
  have hround : RoundsTo (5 / 2) 2 := ⟨by norm_num [abs_le], fun _ => by decide⟩
  have hspells : Spells (trimBlank " 7 ".toList) 7 :=
    @Spells.plain ['7'] (by simp) (List.all_eq_true.mp rfl)
  obtain ⟨i, hnearest, hconverts⟩ := hfloat twoAndHalf _ hvalue
  obtain rfl : 2 = i := (hnearest 2).mp hround
  exact ⟨⟨hvalue, hround, hconverts.inside (by decide) (by decide)⟩,
    hspells, (htext " 7 " 7 hspells).inside (by decide) (by decide)⟩

def pastLargest : Binary64 := .finite false ⟨1086, by decide⟩ ⟨0, by decide⟩

/-- Neither the number nor the text stands for an integer of 64 bits, and both become one. -/
theorem limit_of_beyond :
    (pastLargest.value? = some (2 ^ 63) ∧ RoundsTo (2 ^ 63) (2 ^ 63) ∧
      ¬ (2 ^ 63 : ℤ) ≤ 2 ^ 63 - 1 ∧
      (float pastLargest).convertTo (fun _ => "") .int = .ok (.int Int64.maxValue)) ∧
    Spells (trimBlank "-9223372036854775809".toList) (-9223372036854775809) ∧
      Int64.minValue.toInt ≠ -9223372036854775809 ∧
      (string "-9223372036854775809").convertTo (fun _ => "") .int = .ok (.int Int64.minValue) := by
  have hvalue : pastLargest.value? = some (2 ^ 63) := by
    have hsignificand : Binary64.significand ⟨1086, by decide⟩ ⟨0, by decide⟩ = 2 ^ 52 := by decide
    have hpower : Binary64.power ⟨1086, by decide⟩ = 11 := by decide
    rw [pastLargest, Binary64.value?, hsignificand, hpower]
    norm_num
  have hround : RoundsTo (2 ^ 63) (2 ^ 63) := by
    rw [show (2 ^ 63 : ℚ) = ((2 ^ 63 : ℤ) : ℚ) by norm_num]
    exact .intCast _
  have hspells : Spells (trimBlank "-9223372036854775809".toList) (-9223372036854775809) :=
    @Spells.minus "9223372036854775809".toList (by decide) (List.all_eq_true.mp rfl)
  have hnumber : pastLargest.toInt64? = some Int64.maxValue := by decide +kernel
  have htext : readInt64 "-9223372036854775809" = some Int64.minValue := by decide +kernel
  exact ⟨⟨hvalue, hround, by decide, convertTo_int_of_some nofun hnumber⟩, hspells, by decide,
    convertTo_int_of_some nofun htext⟩

end Value

end DynamicMembers
