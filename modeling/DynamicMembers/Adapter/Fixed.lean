import DynamicMembers.Adapter.Basic
/-!
Adapters with fixed rows: every base value has the same members, and each row has one value that
all objects share. A minimal adapter leaves everything it may to the defaults; a full one also
writes its values and serves indexed properties.
-/

namespace DynamicMembers

/-- A row of a fixed adapter. A row with a failure fails with it whenever it is used. -/
structure FixedRow where
  name : String
  kind : AdaptedKind
  readable : Bool
  writable : Bool
  type : String
  failure : Option String
  definitions : List String
  deriving Repr, DecidableEq

namespace Fixed

def row? (rows : List FixedRow) : AdapterData → Option (Nat × FixedRow)
  | .row i => rows[i]?.map fun r => (i, r)
  | _ => none

/-- The row, if it does not fail. -/
def use (rows : List FixedRow) (data : AdapterData) : Except Failure (Nat × FixedRow) :=
  match row? rows data with
  | none => .error (.adapter .foreignData)
  | some (i, r) =>
    match r.failure with
    | some text => .error (.text text)
    | none => .ok (i, r)

def list (rows : List FixedRow) : List AdapterRow :=
  rows.zipIdx.map fun (r, i) => ⟨r.name, r.kind, .row i⟩

def get (rows : List FixedRow) (state : AdapterState) (data : AdapterData) :
    Except Failure Value := do
  let (i, _) ← use rows data
  .ok (state.shelf[i]?.getD .null)

def set (rows : List FixedRow) (state : AdapterState) (data : AdapterData) (v : Value) :
    Except Failure AdapterState := do
  let (i, _) ← use rows data
  .ok { state with shelf := state.shelf.setIfInBounds i v }

/-- What a row says of itself. -/
def trait {α : Type} (rows : List FixedRow) (absent : α) (f : FixedRow → α)
    (data : AdapterData) : α :=
  match row? rows data with
  | some (_, r) => f r
  | none => absent

def optionalString : Option String → Value
  | some s => .string s
  | none => .null

/-- A method answers with what it was given. -/
def invoke (rows : List FixedRow) (data : AdapterData) (hints : InvocationHints)
    (args : List Value) : Except Failure Value := do
  let _ ← use rows data
  .ok (.map [("args", .list args), ("target", optionalString hints.targetType),
    ("types", .list (hints.parameterTypes.map fun t => optionalString (t.map (·.name)))),
    ("generics", .list (hints.genericArgs.map .string))])

def getIndexed (rows : List FixedRow) (state : AdapterState) (data : AdapterData)
    (args : List Value) : Except Failure Value := do
  let stored ← get rows state data
  .ok (.list [stored, .list args])

def setIndexed (rows : List FixedRow) (state : AdapterState) (data : AdapterData) (v : Value)
    (args : List Value) : Except Failure AdapterState :=
  set rows state data (.list [v, .list args])

end Fixed

namespace Adapter

/-- The adapter that leaves everything it may to the defaults. -/
def minimal (rows : List FixedRow) : Adapter where
  name := "minimal"
  rows := fun _ => Fixed.list rows
  get := Fixed.get rows
  isSettable := fun _ => Fixed.trait rows false (·.writable)
  isGettable := fun _ => Fixed.trait rows true (·.readable)
  valueType := fun _ => Fixed.trait rows "any" (·.type)
  invoke := fun _ _ => Fixed.invoke rows
  definitions := Fixed.trait rows [] (·.definitions)

/-- The adapter that serves everything. -/
def full (rows : List FixedRow) : Adapter where
  name := "full"
  rows := fun _ => Fixed.list rows
  get := Fixed.get rows
  set := Fixed.set rows
  isSettable := fun _ => Fixed.trait rows false (·.writable)
  isGettable := fun _ => Fixed.trait rows true (·.readable)
  valueType := fun _ => Fixed.trait rows "any" (·.type)
  describe := fun _ _ data name =>
    some ("<" ++ Fixed.trait rows "any" (·.type) data ++ ":" ++ name ++ ">")
  invoke := fun _ _ => Fixed.invoke rows
  definitions := Fixed.trait rows [] (·.definitions)
  getIndexed := fun _ => Fixed.getIndexed rows
  setIndexed := fun _ => Fixed.setIndexed rows
  isIndexedSettable := fun _ => Fixed.trait rows false (·.writable)
  indexedType := Fixed.trait rows "any" (·.type)
  indexedDefinitions := Fixed.trait rows [] (·.definitions)

end Adapter

end DynamicMembers
