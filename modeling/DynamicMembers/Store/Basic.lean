import DynamicMembers.TypeTable
/-!
The store: everything about objects and members that can change. Cells hold the values of notes,
captured properties, variables and base objects; lists hold members; scripts hold compiled blocks.
Nothing is ever taken out of the store, so an identifier once given stays good. Whether an object
is still there for its members is a mark of its own.
-/

namespace DynamicMembers

/-- A compiled script and how often it has been run. -/
structure Block where
  text : String
  runs : Nat
  deriving Repr, DecidableEq

/-- The compiled blocks of a script: one that never runs, and one that runs in turn, absent while
it does. -/
structure Blocks (β : Type) where
  template : Option β
  shared : Option β
  deriving Repr, DecidableEq

/-- A script and its blocks; it is compiled when it is first run. -/
structure Script where
  text : String
  blocks : Blocks Block
  deriving Repr, DecidableEq

/-- An object: the value it wraps, its type names with the most specific first, and the members
attached to it. -/
structure ObjectState where
  base : CellId
  typeNames : List String
  members : ListId
  alive : Bool
  deriving Repr, DecidableEq

/-- Word of a member that was attached to an object of these types. -/
structure Announcement where
  typeNames : List String
  name : String
  deriving Repr, DecidableEq

/-- The store. `made` counts the members made so far, `shelf` belongs to the adapter of the model,
`announced` to those who listen for new members, and `modes` to the script engine. -/
structure Store where
  cells : Array Value
  lists : Array MemberList
  scripts : Array Script
  objects : Array ObjectState
  made : Nat
  types : TypeTable
  shelf : Array Value
  announced : Array Announcement
  modes : Array ErrorMode
  deriving Repr

/-- An operation on the store that may fail; what it did before it failed stays done. -/
abbrev Run (ε : Type) := ExceptT ε (StateM Store)

def Run.mapFailure {ε δ α : Type} (f : ε → δ) (run : Run ε α) : Run δ α :=
  ExceptT.adapt f run

namespace Store

def empty : Store := ⟨#[], #[], #[], #[], 0, [], #[], #[], #[]⟩

/-! ## Reading -/

def cell (s : Store) (c : CellId) : Value :=
  s.cells[c.index]?.getD .null

def list (s : Store) (l : ListId) : MemberList :=
  s.lists[l.index]?.getD .empty

def script (s : Store) (i : ScriptId) : Script :=
  s.scripts[i.index]?.getD ⟨"", none, none⟩

def object? (s : Store) (o : ObjectId) : Option ObjectState :=
  s.objects[o.index]?

def isAlive (s : Store) (o : ObjectId) : Bool :=
  ((s.object? o).map (·.alive)).getD false

def typeNames (s : Store) (o : ObjectId) : List String :=
  ((s.object? o).map (·.typeNames)).getD []

def baseValue (s : Store) (o : ObjectId) : Value :=
  match s.object? o with
  | some state => s.cell state.base
  | none => .null

/-- The owner of a member, if it is still there. -/
def ownerOf (s : Store) (m : Member) : Option ObjectId :=
  m.owner.filter s.isAlive

/-! ## Writing -/

def setCell (s : Store) (c : CellId) (v : Value) : Store :=
  { s with cells := s.cells.setIfInBounds c.index v }

def setList (s : Store) (l : ListId) (members : MemberList) : Store :=
  { s with lists := s.lists.setIfInBounds l.index members }

def setScript (s : Store) (i : ScriptId) (script : Script) : Store :=
  { s with scripts := s.scripts.setIfInBounds i.index script }

def setObject (s : Store) (o : ObjectId) (state : ObjectState) : Store :=
  { s with objects := s.objects.setIfInBounds o.index state }

def addCell (v : Value) : StateM Store CellId := fun s =>
  (⟨s.cells.size⟩, { s with cells := s.cells.push v })

def addList (members : MemberList) : StateM Store ListId := fun s =>
  (⟨s.lists.size⟩, { s with lists := s.lists.push members })

def addScript (text : String) : StateM Store ScriptId := fun s =>
  (⟨s.scripts.size⟩, { s with scripts := s.scripts.push ⟨text, none, none⟩ })

def nextMemberId : StateM Store MemberId := fun s =>
  (.made s.made, { s with made := s.made + 1 })

def valueTypeNames (s : Store) : Value → List String
  | .object o => s.typeNames o
  | v => [v.type.name, ValueType.object.name]

/-- A new object that wraps a value under these type names. -/
def wrapAs (v : Value) (typeNames : List String) : StateM Store ObjectId := do
  let base ← addCell v
  let members ← addList .empty
  modifyGet fun s =>
    (⟨s.objects.size⟩, { s with objects := s.objects.push ⟨base, typeNames, members, true⟩ })

def wrap (v : Value) : StateM Store ObjectId := do
  wrapAs v ((← get).valueTypeNames v)

/-- Puts a type name in front of those of an object, unless it has it. -/
def insertTypeName (s : Store) (o : ObjectId) (name : String) : Store :=
  match s.object? o with
  | none => s
  | some state =>
    if state.typeNames.any fun existing => sameName existing name then s
    else s.setObject o { state with typeNames := name :: state.typeNames }

/-- Overwrites the value an object wraps; its type names stay. -/
def setBaseValue (s : Store) (o : ObjectId) (v : Value) : Store :=
  match s.object? o with
  | none => s
  | some state => s.setCell state.base v

/-- Lets an object go: its members have no owner from now on. -/
def release (s : Store) (o : ObjectId) : Store :=
  match s.object? o with
  | none => s
  | some state => s.setObject o { state with alive := false }

def writeVariable (v : Variable) (value : Value) : StateM Store Bool := do
  if v.isWritable then modify fun s => s.setCell v.cell value
  return v.isWritable

/-- Adds a member to a list and returns the one it replaces. -/
def addToList (l : ListId) (m : Member) (vouched : Bool) : Run MemberError (Option Member) := do
  match ((← get).list l).add m vouched with
  | .error refusal => throw refusal
  | .ok (replaced, members) =>
    modify fun s => s.setList l members
    return replaced

/-- Takes the member of a name out of a list and returns it. -/
def removeFromList (l : ListId) (name : String) : Run MemberError (Option Member) := do
  match ((← get).list l).remove name with
  | .error refusal => throw refusal
  | .ok (removed, members) =>
    modify fun s => s.setList l members
    return removed

def declare (typeName : String) (m : Member) : Run MemberError Unit := do
  match (← get).types.declare typeName m with
  | .error refusal => throw refusal
  | .ok types => modify fun s => { s with types := types }

def takeAnnounced : StateM Store (List Announcement) :=
  modifyGet fun s => (s.announced.toList, { s with announced := #[] })

def takeModes : StateM Store (List ErrorMode) :=
  modifyGet fun s => (s.modes.toList, { s with modes := #[] })

def announce (s : Store) (typeNames : List String) (name : String) : Store :=
  { s with announced := s.announced.push ⟨typeNames, name⟩ }

end Store

end DynamicMembers
