import DynamicMembers.Number.Binary64
/-!
Numbers read from decimal text. An integer is digits behind at most one sign. A floating-point
number is digits with a point anywhere among them or none, and perhaps an exponent; or a name of an
infinity or of not-a-number in any case of letters. Only ASCII digits count.
-/

namespace DynamicMembers

def digitsValue (digits : List Char) : Nat :=
  digits.foldl (fun n c => n * 10 + (c.toNat - '0'.toNat)) 0

def splitSign : List Char → Bool × List Char
  | '-' :: rest => (true, rest)
  | '+' :: rest => (false, rest)
  | rest => (false, rest)

def readInt (cs : List Char) : Option Int :=
  let (negative, digits) := splitSign cs
  if digits.isEmpty || !digits.all Char.isDigit then none
  else some (if negative then -(digitsValue digits : Int) else digitsValue digits)

def fitInt64 (i : Int) : Option Int64 :=
  if -0x8000000000000000 ≤ i ∧ i < 0x8000000000000000 then some (Int64.ofInt i) else none

/-- The number nearest to `n * 10 ^ x`. Beyond the largest and below the smallest power of ten that
matter the answer is known without the power. -/
def ofDecimal (negative : Bool) (n : Nat) (x : Int) : Binary64 :=
  let size : Int := (Nat.toDigits 10 n).length + x
  if n = 0 then Binary64.ofRank negative 0
  else if size > 310 then .infinite negative
  else if size < -330 then Binary64.ofRank negative 0
  else Binary64.ofQuotient negative (n * Nat.pow 10 x.toNat)
    (Nat.pow 10 (-x).toNat)

/-- The exponent behind the digits of a number: none, or a mark and an integer. -/
def readExponent : List Char → Option Int
  | [] => some 0
  | c :: rest => if c == 'e' || c == 'E' then readInt rest else none

def readMagnitude (negative : Bool) (cs : List Char) : Option Binary64 :=
  let name := cs.map Char.toLower
  if name == "inf".toList || name == "infinity".toList then some (.infinite negative)
  else if name == "nan".toList then some .nan
  else
    let whole := cs.takeWhile Char.isDigit
    let behind := cs.dropWhile Char.isDigit
    let (places, rest) := match behind with
      | '.' :: tail => (tail.takeWhile Char.isDigit, tail.dropWhile Char.isDigit)
      | tail => ([], tail)
    if whole.isEmpty && places.isEmpty then none
    else do
      let exponent ← readExponent rest
      some (ofDecimal negative (digitsValue (whole ++ places)) (exponent - places.length))

def readFloat (cs : List Char) : Option Binary64 :=
  let (negative, magnitude) := splitSign cs
  readMagnitude negative magnitude

end DynamicMembers
