import DynamicMembers.Failure
/-!
Adapters. An adapter says which members a base value has and serves them: it reads and writes the
base value, and values of its own that it keeps on a shelf. Everything it can change is therefore
in what it returns.
-/

namespace DynamicMembers

inductive AdaptedKind
  | property
  | method
  | parameterized
  deriving Repr, DecidableEq

/-- A member as an adapter lists it. -/
structure AdapterRow where
  name : String
  kind : AdaptedKind
  data : AdapterData
  deriving Repr, DecidableEq

namespace AdapterRow

/-- The row as a kind of member, bound to the adapter and base value it was listed for. -/
def memberKind (row : AdapterRow) (adapter : AdapterTag) (base : CellId) : MemberKind :=
  let binding : Binding := ⟨adapter, base, row.data⟩
  match row.kind with
  | .property => .adapted binding
  | .method => .method binding
  | .parameterized => .parameterized binding

/-- The row as a member without an owner; a row with a blank name is none. -/
def toMember? (row : AdapterRow) (adapter : AdapterTag) (base : CellId) : Option Member :=
  if isBlankText row.name then none
  else some ⟨.row, row.name, .initial, none, row.memberKind adapter base⟩

end AdapterRow

/-- Hints for the choice among the overloads of a method. -/
structure InvocationHints where
  targetType : Option String
  parameterTypes : List (Option ValueType)
  genericArgs : List String
  deriving Repr, DecidableEq

namespace InvocationHints

def none : InvocationHints := ⟨Option.none, [], []⟩

end InvocationHints

/-- What an adapter keeps, and the base value it works on. -/
structure AdapterState where
  shelf : Array Value
  base : Value
  deriving Repr

/-- An adapter. The functions that may have to write a value take the writer of values. -/
structure Adapter where
  name : String
  rows : Value → List AdapterRow
  get : AdapterState → AdapterData → Except Failure Value
  set : AdapterState → AdapterData → Value → Except Failure AdapterState :=
    fun _ _ _ => .error (.adapter .propertyReadOnly)
  isSettable : AdapterState → AdapterData → Bool := fun _ _ => false
  isGettable : AdapterState → AdapterData → Bool := fun _ _ => true
  valueType : AdapterState → AdapterData → String
  describe : (Value → Option String) → AdapterState → AdapterData → String → Option String :=
    fun _ state data name => some (valueType state data ++ " " ++ name)
  invoke : (Value → String) → AdapterState → AdapterData → InvocationHints → List Value →
    Except Failure Value
  /-- The value that `invoke` writes into its answer or its failure. -/
  written : AdapterState → AdapterData → InvocationHints → List Value → Option Value :=
    fun _ _ _ _ => none
  definitions : AdapterData → List String
  getIndexed : (Value → String) → AdapterState → AdapterData → List Value →
    Except Failure Value := fun _ _ _ _ => .error (.adapter .indexedUnsupported)
  setIndexed : (Value → String) → AdapterState → AdapterData → Value → List Value →
    Except Failure AdapterState := fun _ _ _ _ _ => .error (.adapter .indexedReadOnly)
  isIndexedSettable : AdapterState → AdapterData → Bool := fun _ _ => false
  /-- The value that an indexed access shows in its failure; a write has the base value locked. -/
  shownLocked : AdapterState → AdapterData → List Value → Option Value := fun _ _ _ => none
  indexedType : AdapterData → String := fun _ => "any"
  indexedDefinitions : AdapterData → List String := fun _ => []

end DynamicMembers
