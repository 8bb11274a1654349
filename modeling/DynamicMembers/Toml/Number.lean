import DynamicMembers.Number.Reading
import DynamicMembers.Toml.Quoted
/-!
Numbers of TOML documents. Single underscores between digits do not count. An integer has no zeros
in front and fits in 64 bits; without a sign it may be written in base sixteen, eight or two. A
floating-point number has a fraction or an exponent, and its value is not beyond all bounds.
-/

namespace DynamicMembers.Toml

/-- More digits, each behind an underscore or not. -/
def moreDigits (isDigit : Char → Bool) : Reader (List Char)
  | [] => some ([], [])
  | '_' :: [] => none
  | '_' :: c :: rest =>
    if isDigit c then do
      let (digits, rest) ← moreDigits isDigit rest
      some (c :: digits, rest)
    else none
  | c :: rest =>
    if isDigit c then do
      let (digits, rest) ← moreDigits isDigit rest
      some (c :: digits, rest)
    else some ([], c :: rest)

/-- Digits that do not begin with an underscore. -/
def digits (isDigit : Char → Bool) : Reader (List Char)
  | [] => none
  | c :: rest =>
    if isDigit c then do
      let (more, rest) ← moreDigits isDigit rest
      some (c :: more, rest)
    else none

def wholeDigits : Reader (List Char)
  | '0' :: rest => some (['0'], rest)
  | cs => digits Char.isDigit cs

def takeSign : List Char → List Char × List Char
  | '+' :: rest => (['+'], rest)
  | '-' :: rest => (['-'], rest)
  | cs => ([], cs)

/-- An exponent, if there is one. -/
def exponent : Reader (List Char)
  | [] => some ([], [])
  | c :: rest =>
    if c == 'e' || c == 'E' then do
      let (sign, rest) := takeSign rest
      let (ds, rest) ← digits Char.isDigit rest
      some ('e' :: sign ++ ds, rest)
    else some ([], c :: rest)

/-- What makes a floating-point number of digits: a fraction, an exponent or both; or nothing. -/
def fraction : Reader (List Char)
  | '.' :: rest => do
    let (places, rest) ← digits Char.isDigit rest
    let (power, rest) ← exponent rest
    some ('.' :: places ++ power, rest)
  | cs => exponent cs

def integerOf (i : Int) : Option Toml :=
  (fitInt64 i).map .integer

def floatOf (cs : List Char) : Option Toml := do
  let x ← readFloat cs
  if x = .infinite false then none else some (.float x)

/-- A decimal number. -/
def decimal : Reader Toml := fun cs => do
  let (sign, cs) := takeSign cs
  let (whole, cs) ← wholeDigits cs
  let (behind, cs) ← fraction cs
  if behind.isEmpty then some (← integerOf (← readInt (sign ++ whole)), cs)
  else some (← floatOf (sign ++ whole ++ behind), cs)

def based (base : Nat) : Reader Toml := fun cs => do
  let (ds, rest) ← digits (fun c => (hexDigit? c).any (· < base)) cs
  let n := ds.foldl (fun n c => n * base + (hexDigit? c).getD 0) 0
  some (← integerOf n, rest)

/-- A name of an infinity or of not-a-number, perhaps with a sign. -/
def special : Reader Toml := fun cs =>
  let (sign, cs) := takeSign cs
  match cs with
  | 'i' :: 'n' :: 'f' :: rest => some (.float (.infinite (sign == ['-'])), rest)
  | 'n' :: 'a' :: 'n' :: rest => some (.float .nan, rest)
  | _ => none

/-- A number. -/
def number : Reader Toml
  | '0' :: 'x' :: rest => based 16 rest
  | '0' :: 'o' :: rest => based 8 rest
  | '0' :: 'b' :: rest => based 2 rest
  | cs => (special cs).or (decimal cs)

end DynamicMembers.Toml
