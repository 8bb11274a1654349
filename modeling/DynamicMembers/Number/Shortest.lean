import DynamicMembers.Number.Binary64
/-!
The text of a floating-point number: the fewest digits that read back to it, the nearer of two such
texts, written positionally without an exponent. A tie goes upward.
-/

namespace DynamicMembers.Shortest

/-- A positive number `value / unit` and the ends of the interval of the numbers that round to it,
over the same `unit`; `closed` says whether the ends round to it as well. -/
structure Neighbourhood where
  low : Nat
  value : Nat
  high : Nat
  unit : Nat
  closed : Bool

/-- The neighbourhood of `m * 2 ^ q`; `narrow` if the number below is half as far away as the one
above. -/
def neighbourhood (m : Nat) (q : Int) (narrow : Bool) : Neighbourhood :=
  let p := q - 2
  let scale := Nat.pow 2 p.toNat
  { low := (4 * m - if narrow then 1 else 2) * scale
    value := 4 * m * scale
    high := (4 * m + 2) * scale
    unit := Nat.pow 2 (-p).toNat
    closed := m % 2 == 0 }

def Neighbourhood.holds (b : Neighbourhood) (c : Nat) (x : Int) : Bool :=
  let scaled := c * Nat.pow 10 x.toNat * b.unit
  let grid := Nat.pow 10 (-x).toNat
  if b.closed then b.low * grid ≤ scaled && scaled ≤ b.high * grid
  else b.low * grid < scaled && scaled < b.high * grid

def Neighbourhood.below (b : Neighbourhood) (x : Int) : Bool :=
  b.value * Nat.pow 10 (-x).toNat < Nat.pow 10 x.toNat * b.unit

/-- The least `x` with the number below `10 ^ x`, found close to an estimate from its binary
logarithm. -/
def magnitude (b : Neighbourhood) (logarithm : Int) : Int :=
  let estimate := logarithm * 30103 / 100000
  if b.below estimate then estimate
  else if b.below (estimate + 1) then estimate + 1
  else if b.below (estimate + 2) then estimate + 2
  else estimate + 3

/-- The digits `c` and power `x` of the nearest `c * 10 ^ x` on the grid of `10 ^ x` that rounds to
the number, if there is one. -/
def onGrid (b : Neighbourhood) (x : Int) : Option (Nat × Int) :=
  let n := b.value * Nat.pow 10 (-x).toNat
  let d := b.unit * Nat.pow 10 x.toNat
  let c := n / d
  let down := b.holds c x
  let up := b.holds (c + 1) x
  if down && up then some (if 2 * (n % d) < d then c else c + 1, x)
  else if down then some (c, x)
  else if up then some (c + 1, x)
  else none

/-- The first grid with a number that rounds back, from one digit on. -/
def search (b : Neighbourhood) (top : Int) : List Nat → Nat × Int
  | [] => (b.value, 0)
  | n :: more => (onGrid b (top - n)).getD (search b top more)

/-- The shortest decimal `c * 10 ^ x` that rounds to `m * 2 ^ q`; seventeen digits always do. -/
def shortest (m : Nat) (q : Int) (narrow : Bool) : Nat × Int :=
  let b := neighbourhood m q narrow
  let top := magnitude b (Nat.log2 m + q)
  search b top [1, 2, 3, 4, 5, 6, 7, 8, 9, 10, 11, 12, 13, 14, 15, 16, 17]

def fractionDigits (c places : Nat) : List Char :=
  let digits := Nat.toDigits 10 (c % Nat.pow 10 places)
  let padded := List.replicate (places - digits.length) '0' ++ digits
  (padded.reverse.dropWhile (· == '0')).reverse

/-- `c * 10 ^ x` without an exponent. -/
def positional (c : Nat) (x : Int) : String :=
  if x ≥ 0 then toString (c * Nat.pow 10 x.toNat)
  else
    let places := (-x).toNat
    let whole := toString (c / Nat.pow 10 places)
    match fractionDigits c places with
    | [] => whole
    | digits => whole ++ "." ++ String.ofList digits

end DynamicMembers.Shortest

namespace DynamicMembers.Binary64

def text : Binary64 → String
  | nan => "NaN"
  | infinite negative => if negative then "-inf" else "inf"
  | finite negative exponent fraction =>
    let sign := if negative then "-" else ""
    if exponent.val = 0 ∧ fraction.val = 0 then sign ++ "0"
    else
      let narrow := fraction.val == 0 && exponent.val > 1
      let (c, x) := Shortest.shortest (significand exponent fraction) (power exponent) narrow
      sign ++ Shortest.positional c x

end DynamicMembers.Binary64
