import DynamicMembers.Adapter.Basic
import DynamicMembers.Value.Equality
/-!
The bag adapter, for plain values: the entries of a map are settable properties, a list has a count
and an indexed item, a text has a length, and every value has a text and a test of equality. It
keeps nothing of its own.
-/

namespace DynamicMembers.Bag

def rows (base : Value) : List AdapterRow :=
  (match base with
    | .map entries => entries.map fun (key, _) => ⟨key, .property, .bag (.entry key)⟩
    | .list _ =>
      [⟨"Count", .property, .bag .count⟩, ⟨"Item", .parameterized, .bag .item⟩]
    | .string _ => [⟨"Length", .property, .bag .length⟩]
    | _ => [])
  ++ [⟨"ToString", .method, .bag .text⟩, ⟨"Equals", .method, .bag .equals⟩]

def row : AdapterData → Except Failure BagRow
  | .bag r => .ok r
  | _ => .error (.adapter .foreignData)

def get (state : AdapterState) (data : AdapterData) : Except Failure Value := do
  match ← row data, state.base with
  | .entry key, .map entries =>
    match NameMap.lookup key entries with
    | some v => .ok v
    | none => .error (.adapter (.keyGone key))
  | .count, .list items => .ok (.int (Int64.ofNat items.length))
  | .length, .string s => .ok (.int (Int64.ofNat s.length))
  | r, base => .error (.adapter (.notProperty r base.type))

def set (state : AdapterState) (data : AdapterData) (v : Value) :
    Except Failure AdapterState := do
  match ← row data, state.base with
  | .entry key, .map entries => .ok { state with base := .map (NameMap.insert key v entries) }
  | r, _ => .error (.adapter (.rowReadOnly r))

def isSettable : AdapterData → Bool
  | .bag (.entry _) => true
  | _ => false

def valueType (state : AdapterState) (data : AdapterData) : String :=
  match data, state.base with
  | .bag (.entry key), .map entries =>
    match NameMap.lookup key entries with
    | some v => v.type.name
    | none => ValueType.any.name
  | .bag (.entry _), _ => ValueType.any.name
  | _, _ => ValueType.int.name

def describe (write : Value → Option String) (state : AdapterState) (data : AdapterData)
    (name : String) : Option String :=
  let head := valueType state data ++ " " ++ name
  match get state data with
  | .ok v => (write v).map fun text => head ++ "=" ++ text
  | .error _ => some head

def expectArgs (args : List Value) (expected : Nat) : Except Failure Unit :=
  if args.length = expected then .ok () else .error (.arity expected args.length)

def invoke (write : Value → String) (state : AdapterState) (data : AdapterData)
    (hints : InvocationHints) (args : List Value) : Except Failure Value := do
  match ← row data with
  | .text => do
    expectArgs args 0
    .ok (.string (write state.base))
  | .equals => do
    expectArgs args 1
    let given := args.headD .null
    let other ← match hints.parameterTypes.head?.join with
      | some type => (given.convertTo write type).mapError .conversion
      | none => .ok given
    .ok (.boolean (state.base.same other))
  | r => .error (.adapter (.notMethod r))

/-- The base value is written as a text, and a value that is tested for equality if its conversion
writes it. -/
def written (state : AdapterState) (data : AdapterData) (hints : InvocationHints)
    (args : List Value) : Option Value :=
  match data, args with
  | .bag .text, [] => some state.base
  | .bag .equals, [given] =>
    hints.parameterTypes.head?.join.bind fun type =>
      if given.isWrittenFor type then some given else none
  | _, _ => none

def definitions : AdapterData → List String
  | .bag .text => ["string ToString()"]
  | .bag .equals => ["bool Equals(any obj)"]
  | _ => []

/-- The place in a list that the one argument stands for. -/
def listIndex (write : Value → String) (args : List Value) (length : Nat) :
    Except Failure Nat := do
  expectArgs args 1
  let converted ← ((args.headD .null).convertTo write .int).mapError .conversion
  let index ← (converted.expectInt write).mapError .conversion
  if 0 ≤ index.toInt ∧ index.toInt < length then .ok index.toInt.toNat
  else .error (.adapter (.outOfRange index.toInt length))

def getIndexed (write : Value → String) (state : AdapterState) (data : AdapterData)
    (args : List Value) : Except Failure Value := do
  match ← row data, state.base with
  | .item, .list items => do
    let i ← listIndex write args items.length
    .ok (items[i]?.getD .null)
  | r, _ => .error (.adapter (.notIndexable r))

def setIndexed (write : Value → String) (state : AdapterState) (data : AdapterData) (v : Value)
    (args : List Value) : Except Failure AdapterState := do
  match ← row data, state.base with
  | .item, .list items => do
    let i ← listIndex write args items.length
    .ok { state with base := .list (items.set i v) }
  | r, _ => .error (.adapter (.notIndexable r))

def isIndexedSettable : AdapterData → Bool
  | .bag .item => true
  | _ => false

/-- The index that can not be converted. -/
def shownLocked (state : AdapterState) (data : AdapterData) (args : List Value) : Option Value :=
  match data, state.base, args with
  | .bag .item, .list _, [v] => if v.type = .int ∨ v.toInt64?.isSome then none else some v
  | _, _, _ => none

def indexedDefinitions : AdapterData → List String
  | .bag .item => ["any Item(int index) \x7bget;set;\x7d"]
  | _ => []

end DynamicMembers.Bag

namespace DynamicMembers

def Adapter.bag : Adapter where
  name := "bag"
  rows := Bag.rows
  get := Bag.get
  set := Bag.set
  isSettable := fun _ => Bag.isSettable
  valueType := Bag.valueType
  describe := Bag.describe
  invoke := Bag.invoke
  written := Bag.written
  definitions := Bag.definitions
  getIndexed := Bag.getIndexed
  setIndexed := Bag.setIndexed
  isIndexedSettable := fun _ => Bag.isIndexedSettable
  shownLocked := Bag.shownLocked
  indexedDefinitions := Bag.indexedDefinitions

end DynamicMembers
