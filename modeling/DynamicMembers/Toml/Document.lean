import DynamicMembers.Toml.Moment
import DynamicMembers.Toml.Number
import DynamicMembers.Toml.Table
/-!
TOML documents. Nothing is said of what is wrong with a text that is no document.

Loops over items and lines are bounded by a number of rounds, that is more than the document has
characters, and each round takes a character at least. Nesting and the parts of keys are bounded by
the depth the format allows here.
-/

namespace DynamicMembers.Toml

/-! ## Keys -/

/-- One part of a key. -/
def keyPart : Reader String := fun cs =>
  match cs with
  | '\x22' :: _ | '\x27' :: _ => lineString cs
  | _ =>
    match cs.takeWhile isBareKeyChar with
    | [] => none
    | name => some (String.ofList name, cs.dropWhile isBareKeyChar)

/-- At most so many parts of a key, with dots between them and blanks around them. -/
def keyParts : Nat → Reader (List String)
  | 0, _ => none
  | rounds + 1, cs => do
    let (part, cs) ← keyPart (skipBlanks cs)
    match skipBlanks cs with
    | '.' :: rest => do
      let (parts, rest) ← keyParts rounds rest
      some (part :: parts, rest)
    | rest => some ([part], rest)

/-- A key: all but its last part, and that. -/
def key : Reader (List String × String) := fun cs => do
  let (parts, rest) ← keyParts (depthLimit - 1) cs
  match parts.reverse with
  | last :: before => some ((before.reverse, last), rest)
  | [] => none

/-! ## Values -/

/-- The items of an array, up to its end. -/
def items (value : Reader Toml) : Nat → Reader (List Toml)
  | 0, _ => none
  | rounds + 1, cs => do
    let cs ← skipFiller cs
    match cs with
    | ']' :: rest => some ([], rest)
    | _ => do
      let (v, cs) ← value cs
      let cs ← skipFiller cs
      match cs with
      | ',' :: rest => do
        let (vs, rest) ← items value rounds rest
        some (v :: vs, rest)
      | ']' :: rest => some ([v], rest)
      | _ => none

def pair (value : Reader Toml) : Reader ((List String × String) × Toml) := fun cs => do
  let (name, cs) ← key cs
  let (v, cs) ← value (skipBlanks (← expectChar '=' cs))
  some ((name, v), cs)

/-- The pairs of a table on one line, up to its end. -/
def pairs (value : Reader Toml) : Nat → Entries → Reader Entries
  | 0, _, _ => none
  | rounds + 1, entries, cs => do
    let (((path, last), v), cs) ← pair value cs
    let entries ← entries.addValue path last v
    match skipBlanks cs with
    | ',' :: rest => pairs value rounds entries rest
    | '}' :: rest => some (entries, rest)
    | _ => none

/-- A table on one line, behind its opening brace. -/
def lineTable (value : Reader Toml) (rounds : Nat) : Reader Toml := fun cs =>
  match skipBlanks cs with
  | '}' :: rest => some (.table [], rest)
  | _ => do
    let (entries, rest) ← pairs value rounds [] cs
    some (.table (finishEntries entries), rest)

def word (spelling : String) (v : Toml) : Reader Toml := fun cs =>
  let letters := spelling.toList
  if letters.isPrefixOf cs then some (v, cs.drop letters.length) else none

/-- A value that holds no other. -/
def scalar : Reader Toml := fun cs =>
  match cs with
  | '\x22' :: _ | '\x27' :: _ => (anyString cs).map fun (s, rest) => (.string s, rest)
  | 't' :: _ => word "true" (.boolean true) cs
  | 'f' :: _ => word "false" (.boolean false) cs
  | _ => ((anyMoment cs).map fun (text, rest) => (.moment text, rest)).or (number cs)

/-- A value in which arrays and tables are nested less than so deep. -/
def value (rounds : Nat) : Nat → Reader Toml
  | 0, cs =>
    match cs with
    | '[' :: _ | '\x7b' :: _ => none
    | _ => scalar cs
  | depth + 1, cs =>
    match cs with
    | '[' :: rest => do
      let (vs, rest) ← items (value rounds depth) rounds rest
      some (.array vs, rest)
    | '\x7b' :: rest => lineTable (value rounds depth) rounds rest
    | _ => scalar cs

/-! ## Lines -/

/-- A header, behind its first bracket. -/
def header : Reader Header := fun cs => do
  let (isArray, cs) := match cs with
    | '[' :: rest => (true, rest)
    | _ => (false, cs)
  let ((path, last), cs) ← key cs
  let cs ← expectChar ']' cs
  let cs ← if isArray then expectChar ']' cs else some cs
  some (⟨path, last, isArray⟩, cs)

/-- Reads one line that is not blank into a draft; what is behind it is left. -/
def line (rounds : Nat) (draft : Draft) : Reader Draft := fun cs =>
  match cs with
  | '#' :: _ => do some (draft, ← restOfLine? cs)
  | '\n' :: _ | '\r' :: _ => do some (draft, ← newline? cs)
  | '[' :: rest => do
    let (header, rest) ← header rest
    let rest ← restOfLine? rest
    some (← draft.enter header, rest)
  | _ => do
    let (((path, last), v), rest) ← pair (value rounds (depthLimit - 1)) cs
    let rest ← restOfLine? rest
    some (← draft.addValue path last v, rest)

/-- Reads at most so many lines, up to the end. -/
def lines (rounds : Nat) : Nat → Draft → List Char → Option Draft
  | 0, _, _ => none
  | left + 1, draft, cs =>
    match skipBlanks cs with
    | [] => some draft
    | cs => do
      let (draft, rest) ← line rounds draft cs
      lines rounds left draft rest

/-- The entries of a document; a byte order mark in front does not count. -/
def parse? (text : String) : Option (List (String × Toml)) := do
  let cs := match text.toList with
    | '\ufeff' :: rest => rest
    | cs => cs
  let rounds := cs.length + 1
  let draft ← lines rounds rounds .empty cs
  some (finishEntries (← draft.close))

end DynamicMembers.Toml
