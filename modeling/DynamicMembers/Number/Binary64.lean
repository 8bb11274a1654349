import DynamicMembers.Number.Rounding
/-!
Floating-point numbers of 64 bits, as values and not as bit patterns: one not-a-number, two
infinities, and the finite numbers by their fields. Conversions round to the nearest number, ties
to the one with an even significand, in exact integer arithmetic.
-/

namespace DynamicMembers

abbrev Binary64.fractions : Nat := 0x10000000000000

/-- A binary floating-point number of 64 bits. -/
inductive Binary64
  | nan
  | infinite (negative : Bool)
  | finite (negative : Bool) (exponent : Fin 2047) (fraction : Fin Binary64.fractions)
  deriving Repr, DecidableEq

namespace Binary64

/-! ## What the fields stand for -/

/-- The significand `m` of the magnitude `m * 2 ^ q`. -/
def significand (exponent : Fin 2047) (fraction : Fin fractions) : Nat :=
  if exponent.val = 0 then fraction.val else fractions + fraction.val

/-- The power `q` of the magnitude `m * 2 ^ q`. -/
def power (exponent : Fin 2047) : Int :=
  (max exponent.val 1 : Nat) - 1075

def signBit (negative : Bool) : Nat :=
  if negative then 0x8000000000000000 else 0

/-- The finite number or infinity at this place among the magnitudes in ascending order. -/
def ofRank (negative : Bool) (rank : Nat) : Binary64 :=
  if h : rank / fractions < 2047 then
    .finite negative ⟨rank / fractions, h⟩ ⟨rank % fractions, Nat.mod_lt _ (by decide)⟩
  else .infinite negative

def ofBits (bits : Nat) : Binary64 :=
  let negative := bits / signBit true % 2 == 1
  let rank := bits % signBit true
  if rank > 2047 * fractions then .nan else ofRank negative rank

/-- The interchange bits of the number; not-a-number has the quiet pattern without a payload. -/
def toBits : Binary64 → Nat
  | nan => 0x7FF8000000000000
  | infinite negative => signBit negative + 2047 * fractions
  | finite negative exponent fraction =>
    signBit negative + exponent.val * fractions + fraction.val

def zero : Binary64 := .finite false 0 0

def one : Binary64 := .finite false 1023 0

/-! ## From exact numbers -/

/-- The least power `q`, not below that of the smallest numbers, with `n / d < 2 ^ (53 + q)`. -/
def unitPower (n d : Nat) : Int :=
  let gap : Int := (Nat.log2 n : Int) - Nat.log2 d
  let below := if gap ≥ 0 then n < d * Nat.pow 2 gap.toNat else n * Nat.pow 2 (-gap).toNat < d
  max (if below then gap - 53 else gap - 52) (-1074)

/-- The number nearest to `n / d`, for a positive `d`. -/
def ofQuotient (negative : Bool) (n d : Nat) : Binary64 :=
  if n = 0 then ofRank negative 0
  else
    let q := unitPower n d
    let m :=
      if q ≥ 0 then roundDiv n (d * Nat.pow 2 q.toNat) else roundDiv (n * Nat.pow 2 (-q).toNat) d
    ofRank negative ((q + 1074).toNat * fractions + m)

def ofInt (i : Int) : Binary64 :=
  ofQuotient (i < 0) i.natAbs 1

/-! ## To exact numbers -/

/-- The nearest integer, ties to even; none for infinities and not-a-number. -/
def toInt? : Binary64 → Option Int
  | nan => none
  | infinite _ => none
  | finite negative exponent fraction =>
    let m := significand exponent fraction
    let q := power exponent
    let n := if q ≥ 0 then m * Nat.pow 2 q.toNat else roundDiv m (Nat.pow 2 (-q).toNat)
    some (if negative then -(n : Int) else n)

def isZero : Binary64 → Bool
  | finite _ exponent fraction => exponent.val == 0 && fraction.val == 0
  | _ => false

/-- The same number: the two zeros are one, and not-a-number equals itself. -/
def same (x y : Binary64) : Bool :=
  x == y || (x.isZero && y.isZero)

theorem same_refl (x : Binary64) : x.same x = true := by
  simp [same]

theorem same_comm (x y : Binary64) : x.same y = y.same x := by
  simp [same, Bool.and_comm, Bool.beq_comm]

theorem same_trans {x y z : Binary64} (hxy : x.same y = true) (hyz : y.same z = true) :
    x.same z = true := by
  simp only [same, Bool.or_eq_true, Bool.and_eq_true, beq_iff_eq] at *
  rcases hxy with rfl | hxy
  · exact hyz
  · rcases hyz with rfl | hyz
    · exact Or.inr hxy
    · exact Or.inr ⟨hxy.1, hyz.2⟩

end Binary64

end DynamicMembers
