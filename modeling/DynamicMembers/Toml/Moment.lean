import DynamicMembers.Toml.Basic
/-!
Dates and times of TOML documents, read into their normal text: a date and a time are divided by
`T`, fractions of a second have nine places at most and no zeros at their end, and the offset zero
has a plus sign unless it is written `Z`.
-/

namespace DynamicMembers.Toml

/-- A number of so many digits within bounds. -/
def fixedNumber (width low high : Nat) : Reader Nat := fun cs =>
  let digits := cs.take width
  if digits.length = width ∧ digits.all Char.isDigit then
    let n := digits.foldl (fun n c => n * 10 + (c.toNat - '0'.toNat)) 0
    if low ≤ n ∧ n ≤ high then some (n, cs.drop width) else none
  else none

def expectChar (c : Char) : List Char → Option (List Char)
  | [] => none
  | d :: rest => if c == d then some rest else none

def padded (width n : Nat) : String :=
  let digits := Nat.toDigits 10 n
  String.ofList (List.replicate (width - digits.length) '0' ++ digits)

def daysIn (year month : Nat) : Nat :=
  if month = 2 then
    if year % 4 = 0 ∧ (year % 100 ≠ 0 ∨ year % 400 = 0) then 29 else 28
  else if month = 4 ∨ month = 6 ∨ month = 9 ∨ month = 11 then 30
  else 31

/-- A date. -/
def date : Reader String := fun cs => do
  let (year, cs) ← fixedNumber 4 0 9999 cs
  let (month, cs) ← fixedNumber 2 1 12 (← expectChar '-' cs)
  let (day, cs) ← fixedNumber 2 1 31 (← expectChar '-' cs)
  if day ≤ daysIn year month then
    some (padded 4 year ++ "-" ++ padded 2 month ++ "-" ++ padded 2 day, cs)
  else none

/-- The text of the first nine places of a fraction, without zeros at the end. -/
def fractionText (digits : List Char) : String :=
  match ((digits.take 9).reverse.dropWhile (· == '0')).reverse with
  | [] => ""
  | places => "." ++ String.ofList places

/-- A time of day; a minute may have a leap second. -/
def time : Reader String := fun cs => do
  let (hour, cs) ← fixedNumber 2 0 23 cs
  let (minute, cs) ← fixedNumber 2 0 59 (← expectChar ':' cs)
  let (second, cs) ← fixedNumber 2 0 60 (← expectChar ':' cs)
  let text := padded 2 hour ++ ":" ++ padded 2 minute ++ ":" ++ padded 2 second
  match cs with
  | '.' :: rest =>
    let digits := rest.takeWhile Char.isDigit
    if digits.isEmpty then some (text, cs)
    else some (text ++ fractionText digits, rest.dropWhile Char.isDigit)
  | _ => some (text, cs)

/-- An offset from universal time. -/
def offset : Reader String
  | [] => none
  | c :: rest =>
    if c == 'Z' || c == 'z' then some ("Z", rest)
    else if c == '+' || c == '-' then do
      let (hours, rest) ← fixedNumber 2 0 23 rest
      let (minutes, rest) ← fixedNumber 2 0 59 (← expectChar ':' rest)
      let sign := if c == '-' && hours + minutes != 0 then "-" else "+"
      some (sign ++ padded 2 hours ++ ":" ++ padded 2 minutes, rest)
    else none

/-- A time behind a date. -/
def timeOfDate : Reader String
  | [] => none
  | c :: rest =>
    if c == 'T' || c == 't' || c == ' ' then do
      let (text, rest) ← time rest
      match offset rest with
      | some (zone, rest) => some (text ++ zone, rest)
      | none => some (text, rest)
    else none

/-- A date, a time, or both. -/
def anyMoment : Reader String := fun cs =>
  match date cs with
  | some (day, rest) =>
    match timeOfDate rest with
    | some (text, rest) => some (day ++ "T" ++ text, rest)
    | none => some (day, rest)
  | none => time cs

end DynamicMembers.Toml
