import DynamicMembers.Member.Traits
import DynamicMembers.Reserved
import DynamicMembers.Value.Type
/-!
Members. A member itself never changes: its name, flags, owner and kind are fixed, and whatever can
change (a stored value, a list of members, a compiled script) is kept in the store and referred to
by an identifier. Handles of one member share its identity; a copy has an identity of its own.
-/

namespace DynamicMembers

/-! ## References into the store -/

structure CellId where
  index : Nat
  deriving Repr, DecidableEq

structure ListId where
  index : Nat
  deriving Repr, DecidableEq

structure ScriptId where
  index : Nat
  deriving Repr, DecidableEq

structure ObjectId where
  index : Nat
  deriving Repr, DecidableEq

/-- What tells one member from another. -/
inductive MemberId
  /-- Made when so many members had been made before. -/
  | made (serial : Nat)
  /-- The grouping member that the object keeps. -/
  | kept (object : ObjectId) (which : ReservedMember)
  /-- A row of an adapter, before it is handed out as a member. -/
  | row
  deriving Repr, DecidableEq

/-! ## Native callables -/

/-- What a callable takes at one place: the owner of the member, or a value of a type. -/
inductive ParamType
  | owner
  | value (type : ValueType)
  deriving Repr, DecidableEq

namespace ParamType

def name : ParamType → String
  | owner => "psobject"
  | value type => type.name

end ParamType

/-- What a callable does: it lists the owner's type names, or what the host makes of a text. -/
inductive CodeBody
  | typeNames
  | hosted (text : String)
  deriving Repr, DecidableEq

/-- A named native callable with its declared shape; `returns` is absent if it returns nothing. -/
structure CodeReference where
  name : String
  params : List ParamType
  returns : Option ValueType
  body : CodeBody
  deriving Repr, DecidableEq

namespace CodeReference

/-- The parameters behind the owner. -/
def valueParams (code : CodeReference) : List ParamType :=
  code.params.drop 1

end CodeReference

/-! ## Scripts -/

/-- Whether a script passes the errors of its error stream on. -/
inductive ErrorMode
  | propagate
  | swallow
  deriving Repr, DecidableEq

namespace ErrorMode

def name : ErrorMode → String
  | propagate => "Propagate"
  | swallow => "Swallow"

end ErrorMode

/-- How a member runs its scripts: each time on a copy of the compiled block or not, and how errors
are reported. -/
structure RunPolicy where
  onCopy : Bool
  mode : ErrorMode
  deriving Repr, DecidableEq

/-! ## Variables -/

/-- A variable: its name, whether it may be written, and the cell of its value. -/
structure Variable where
  name : String
  readOnly : Bool
  constant : Bool
  cell : CellId
  deriving Repr, DecidableEq

namespace Variable

def isWritable (v : Variable) : Bool :=
  !v.readOnly && !v.constant

end Variable

/-! ## Members that adapters supply -/

/-- What the bag adapter shows of a base value. -/
inductive BagRow
  | entry (key : String)
  | count
  | length
  | item
  | text
  | equals
  deriving Repr, DecidableEq

/-- What an adapter remembers of a member it supplied. -/
inductive AdapterData
  | bag (row : BagRow)
  | row (index : Nat)
  | foreign
  deriving Repr, DecidableEq

/-- Which adapter serves a member: the one of the model, or the bag adapter. -/
inductive AdapterTag
  | model
  | bag
  deriving Repr, DecidableEq

/-- The adapter, base value and data a member is bound to. -/
structure Binding where
  adapter : AdapterTag
  base : CellId
  data : AdapterData
  deriving Repr, DecidableEq

/-! ## Kinds -/

/-- Where a member set has its members: a list of its own, or what it shows of its owner. -/
inductive SetContent
  | list (members : ListId)
  | reserved (view : ReservedView)
  deriving Repr, DecidableEq

inductive MemberKind
  /-- Forwards to another member of the owner; what is read is converted. -/
  | aliasOf (reference : String) (conversion : Option ValueType)
  | code (getter setter : Option CodeReference)
  | note (cell : CellId)
  | slot (target : Variable)
  | script (getter setter : Option ScriptId) (policy : RunPolicy)
  /-- A property of the base value, through an adapter. -/
  | adapted (binding : Binding)
  /-- A property captured from a serialized object. -/
  | captured (cell : CellId)
  | inferred (typeName : String)
  | propertySet (references : List String)
  | method (binding : Binding)
  | codeMethod (code : CodeReference)
  | scriptMethod (script : ScriptId) (policy : RunPolicy)
  | parameterized (binding : Binding)
  | memberSet (content : SetContent) (inherits : Bool)
  | event (name handlerType : String)
  | dynamic
  deriving Repr, DecidableEq

namespace MemberKind

def type : MemberKind → MemberType
  | aliasOf .. => .aliasProperty
  | code .. => .codeProperty
  | note .. => .noteProperty
  | slot .. => .variableProperty
  | script .. => .scriptProperty
  | adapted .. => .property
  | captured .. => .property
  | inferred .. => .inferredProperty
  | propertySet .. => .propertySet
  | method .. => .method
  | codeMethod .. => .codeMethod
  | scriptMethod .. => .scriptMethod
  | parameterized .. => .parameterizedProperty
  | memberSet .. => .memberSet
  | event .. => .event
  | dynamic => .dynamic

end MemberKind

/-- A member. Its owner is the object whose data it exposes; the owner may be gone by now. -/
structure Member where
  id : MemberId
  name : String
  flags : MemberFlags
  owner : Option ObjectId
  kind : MemberKind
  deriving Repr, DecidableEq

namespace Member

def type (m : Member) : MemberType :=
  m.kind.type

/-- The same member with a mark set or cleared, for a caller with the only handle of it. -/
def setFlag (m : Member) (flag : MemberFlag) (on : Bool) : Member :=
  { m with flags := m.flags.set flag on }

/-- The grouping member of an object: hidden, reserved, and owned by the object. -/
def reserved (object : ObjectId) (which : ReservedMember) : Member where
  id := .kept object which
  name := which.name
  flags := .ofReserved
  owner := some object
  kind := match which.view with
    | some view => .memberSet (.reserved view) false
    | none => .code (some ⟨which.name, [.owner], some .list, .typeNames⟩) none

end Member

end DynamicMembers
