import DynamicMembers.Toml.Basic
/-!
Strings of TOML documents: on one line or on many, with escapes or taken literally. A run of
quotes ends a string on many lines with its last three; two of them at most belong to the string.
-/

namespace DynamicMembers.Toml

/-- The digit a character is in base sixteen. -/
def hexDigit? (c : Char) : Option Nat :=
  if c.isDigit then some (c.toNat - '0'.toNat)
  else if 'a' ≤ c ∧ c ≤ 'f' then some (c.toNat - 'a'.toNat + 10)
  else if 'A' ≤ c ∧ c ≤ 'F' then some (c.toNat - 'A'.toNat + 10)
  else none

/-- The character whose number is written in so many digits of base sixteen. -/
def hexChar? (width : Nat) (digits : List Char) : Option Char := do
  if digits.length ≠ width then none
  let code ← digits.foldlM (fun code c => (hexDigit? c).map (code * 16 + ·)) 0
  if code.isValidChar then some (Char.ofNat code) else none

/-- The character an escape stands for, and how many characters it takes behind the backslash. -/
def escape? : List Char → Option (Char × Nat)
  | 'b' :: _ => some ('\x08', 1)
  | 'f' :: _ => some ('\x0c', 1)
  | 'n' :: _ => some ('\n', 1)
  | 'r' :: _ => some ('\r', 1)
  | 't' :: _ => some ('\t', 1)
  | '\x22' :: _ => some ('\x22', 1)
  | '\\' :: _ => some ('\\', 1)
  | 'u' :: digits => (hexChar? 4 (digits.take 4)).map (·, 5)
  | 'U' :: digits => (hexChar? 8 (digits.take 8)).map (·, 9)
  | _ => none

/-- The rest of a string on one line, behind so many characters of an escape. -/
def basicBody : Nat → Reader (List Char)
  | _, [] => none
  | passed + 1, _ :: rest => basicBody passed rest
  | 0, c :: rest =>
    if c == '\x22' then some ([], rest)
    else if c == '\\' then do
      let (x, taken) ← escape? rest
      let (cs, rest) ← basicBody taken rest
      some (x :: cs, rest)
    else if isPlain c then do
      let (cs, rest) ← basicBody 0 rest
      some (c :: cs, rest)
    else none

/-- The rest of a literal string on one line. -/
def literalBody : Reader (List Char)
  | [] => none
  | c :: rest =>
    if c == '\x27' then some ([], rest)
    else if isPlain c then do
      let (cs, rest) ← literalBody rest
      some (c :: cs, rest)
    else none

/-- The end of a string on many lines: the quotes that belong to it, and what is behind. -/
def closing? (quote : Char) (cs : List Char) : Option (List Char × List Char) :=
  let run := (cs.takeWhile (· == quote)).length
  if run < 3 then none
  else
    let own := min (run - 3) 2
    some (List.replicate own quote, cs.drop (own + 3))

/-- What is read next of a string on many lines. -/
inductive Pending
  /-- Text. -/
  | text
  /-- Text, once these characters of an escape are passed. -/
  | escaped (left : Nat)
  /-- Text, once blanks and line ends are passed. -/
  | joined

/-- The rest of a string on many lines. A backslash at the end of a line joins the line with the
next text. -/
def manyLines : Pending → Reader (List Char)
  | _, [] => none
  | .escaped (left + 1), _ :: rest => manyLines (.escaped left) rest
  | pending, c :: rest =>
    let joined := match pending with
      | .joined => true
      | _ => false
    if joined && (isBlankChar c || c == '\n') then manyLines .joined rest
    else if c == '\r' then
      if rest.head? == some '\n' then manyLines (if joined then .joined else .text) rest else none
    else if c == '\n' then do
      let (cs, rest) ← manyLines .text rest
      some ('\n' :: cs, rest)
    else if c == '\x22' then
      match closing? '\x22' (c :: rest) with
      | some done => some done
      | none => do
        let (cs, rest) ← manyLines .text rest
        some (c :: cs, rest)
    else if c == '\\' then
      if (newline? (skipBlanks rest)).isSome then manyLines .joined rest
      else do
        let (x, taken) ← escape? rest
        let (cs, rest) ← manyLines (.escaped taken) rest
        some (x :: cs, rest)
    else if isPlain c then do
      let (cs, rest) ← manyLines .text rest
      some (c :: cs, rest)
    else none

/-- The rest of a literal string on many lines. -/
def manyLiteralLines : Reader (List Char)
  | [] => none
  | c :: rest =>
    if c == '\r' then
      if rest.head? == some '\n' then manyLiteralLines rest else none
    else if c == '\x27' then
      match closing? '\x27' (c :: rest) with
      | some done => some done
      | none => do
        let (cs, rest) ← manyLiteralLines rest
        some (c :: cs, rest)
    else if isPlain c || c == '\n' then do
      let (cs, rest) ← manyLiteralLines rest
      some (c :: cs, rest)
    else none

/-- A string on one line. -/
def lineString : Reader String
  | '\x22' :: rest => do
    let (cs, rest) ← basicBody 0 rest
    some (String.ofList cs, rest)
  | '\x27' :: rest => do
    let (cs, rest) ← literalBody rest
    some (String.ofList cs, rest)
  | _ => none

/-- A line end right behind the opening quotes does not count. -/
def skipFirstNewline (cs : List Char) : List Char :=
  (newline? cs).getD cs

/-- A string. -/
def anyString : Reader String
  | '\x22' :: '\x22' :: '\x22' :: rest => do
    let (cs, rest) ← manyLines .text (skipFirstNewline rest)
    some (String.ofList cs, rest)
  | '\x27' :: '\x27' :: '\x27' :: rest => do
    let (cs, rest) ← manyLiteralLines (skipFirstNewline rest)
    some (String.ofList cs, rest)
  | cs => lineString cs

end DynamicMembers.Toml
