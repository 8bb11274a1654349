import DynamicMembers.Toml.Basic
/-!
Tables as they grow while a document is read. A table is written with a header of its own, or made
in passing by a longer header or a dotted key. What was made in passing may still be added to in
the same manner; what was written out may not be written again.
-/

namespace DynamicMembers.Toml

/-- How a table came to be: in passing, and if so by a dotted key. -/
structure Making where
  inPassing : Bool
  dotted : Bool
  deriving Repr, DecidableEq

namespace Making

def explicit : Making := ⟨false, false⟩

def passed (dotted : Bool) : Making := ⟨true, dotted⟩

end Making

/-- What stands under a key while a document is read: a value, a table, or an array of tables with
the latest first. -/
inductive Node
  | value (v : Toml)
  | table (making : Making) (entries : List (String × Node))
  | tables (latest : List (List (String × Node)))

abbrev Entries := List (String × Node)

namespace Entries

/-- What stands under exactly this key. -/
def find? (entries : Entries) (key : String) : Option Node :=
  (List.find? (fun entry => entry.1 == key) entries).map (·.2)

/-- Puts something under a key, behind all others if the key is new. -/
def put (key : String) (node : Node) : Entries → Entries
  | [] => [(key, node)]
  | (other, old) :: rest =>
    if other == key then (other, node) :: rest else (other, old) :: put key node rest

def without (entries : Entries) (key : String) : Entries :=
  entries.filter fun entry => entry.1 != key

/-- Changes the table at the end of a path of keys and returns what the change gives. Tables that
are missing on the way are made in passing. A path of dotted keys does not enter what was written
out, and no path enters a value. -/
def changeAt {α : Type} (dotted : Bool) (change : Making → Entries → Option (α × Entries)) :
    List String → Making → Entries → Option (α × Entries)
  | [], making, entries => change making entries
  | key :: path, _, entries =>
    match entries.find? key with
    | none => do
      let (a, inner) ← changeAt dotted change path (.passed dotted) []
      some (a, entries.put key (.table (.passed dotted) inner))
    | some (.table making inner) =>
      if dotted && !making.inPassing then none
      else do
        let (a, inner) ← changeAt dotted change path making inner
        some (a, entries.put key (.table making inner))
    | some (.tables (last :: earlier)) => do
      let (a, last) ← changeAt dotted change path .explicit last
      some (a, entries.put key (.tables (last :: earlier)))
    | some (.tables []) => none
    | some (.value _) => none

/-- Adds a value under a dotted key, of which `path` is all but the last part. -/
def addValue (entries : Entries) (path : List String) (key : String) (v : Toml) :
    Option Entries :=
  (changeAt true (fun making inner =>
    if making.dotted == path.isEmpty || (inner.find? key).isSome then none
    else some ((), inner.put key (.value v))) path .explicit entries).map (·.2)

/-- Takes the table under a key out, to go on with it; a new one if there is none. Only a table
that a longer header made in passing may be gone on with. -/
def takeTable (entries : Entries) (path : List String) (key : String) :
    Option (Entries × Entries) :=
  changeAt false (fun _ parent =>
    match parent.find? key with
    | none => some ([], parent)
    | some (.table ⟨true, false⟩ inner) => some (inner, parent.without key)
    | some _ => none) path .explicit entries

/-- Puts a table under a key that is free. -/
def putTable (entries : Entries) (path : List String) (key : String) (inner : Entries) :
    Option Entries :=
  (changeAt false (fun _ parent =>
    match parent.find? key with
    | none => some ((), parent.put key (.table .explicit inner))
    | some _ => none) path .explicit entries).map (·.2)

/-- Adds a table to the array of tables under a key. -/
def pushTable (entries : Entries) (path : List String) (key : String) (inner : Entries) :
    Option Entries :=
  (changeAt false (fun _ parent =>
    match parent.find? key with
    | none => some ((), parent.put key (.tables [inner]))
    | some (.tables latest) => some ((), parent.put key (.tables (inner :: latest)))
    | some _ => none) path .explicit entries).map (·.2)

end Entries

mutual

def Node.finish : Node → Toml
  | .value v => v
  | .table _ entries => .table (finishEntries entries)
  | .tables latest => .array (finishTables latest).reverse

def finishEntries : List (String × Node) → List (String × Toml)
  | [] => []
  | (key, node) :: rest => (key, node.finish) :: finishEntries rest

def finishTables : List (List (String × Node)) → List Toml
  | [] => []
  | entries :: rest => .table (finishEntries entries) :: finishTables rest

end

/-- A header of a table, or of one more table of an array; `path` is all but the last key. -/
structure Header where
  path : List String
  key : String
  isArray : Bool
  deriving Repr, DecidableEq

/-- A document while it is read: what is finished, and the table that is being added to under its
header. Before the first header that is the document itself. -/
structure Draft where
  finished : Entries
  current : Entries
  header : Option Header

namespace Draft

def empty : Draft := ⟨[], [], none⟩

def addValue (draft : Draft) (path : List String) (key : String) (v : Toml) : Option Draft :=
  (draft.current.addValue path key v).map fun current => { draft with current := current }

/-- Everything, with the current table in its place. -/
def close (draft : Draft) : Option Entries :=
  match draft.header with
  | none => some draft.current
  | some header =>
    if header.isArray then draft.finished.pushTable header.path header.key draft.current
    else draft.finished.putTable header.path header.key draft.current

/-- Goes on under another header. -/
def enter (draft : Draft) (header : Header) : Option Draft := do
  let entries ← draft.close
  if header.isArray then some ⟨entries, [], some header⟩
  else
    let (current, finished) ← entries.takeTable header.path header.key
    some ⟨finished, current, some header⟩

end Draft

end DynamicMembers.Toml
