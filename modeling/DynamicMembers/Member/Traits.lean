/-!
What members have in common whatever they do: their type, sets of types, and flags.
-/

namespace DynamicMembers

/-- The fifteen types of members. -/
inductive MemberType
  | aliasProperty
  | codeProperty
  | property
  | noteProperty
  | scriptProperty
  | variableProperty
  | inferredProperty
  | propertySet
  | method
  | codeMethod
  | scriptMethod
  | parameterizedProperty
  | memberSet
  | event
  | dynamic
  deriving Repr, DecidableEq

namespace MemberType

def all : List MemberType :=
  [aliasProperty, codeProperty, property, noteProperty, scriptProperty, variableProperty,
    inferredProperty, propertySet, method, codeMethod, scriptMethod, parameterizedProperty,
    memberSet, event, dynamic]

def name : MemberType → String
  | aliasProperty => "AliasProperty"
  | codeProperty => "CodeProperty"
  | property => "Property"
  | noteProperty => "NoteProperty"
  | scriptProperty => "ScriptProperty"
  | variableProperty => "VariableProperty"
  | inferredProperty => "InferredProperty"
  | propertySet => "PropertySet"
  | method => "Method"
  | codeMethod => "CodeMethod"
  | scriptMethod => "ScriptMethod"
  | parameterizedProperty => "ParameterizedProperty"
  | memberSet => "MemberSet"
  | event => "Event"
  | dynamic => "Dynamic"

def ofName? (name : String) : Option MemberType :=
  all.find? fun t => t.name == name

def index : MemberType → Nat
  | aliasProperty => 0
  | codeProperty => 1
  | property => 2
  | noteProperty => 3
  | scriptProperty => 4
  | variableProperty => 5
  | inferredProperty => 6
  | propertySet => 7
  | method => 8
  | codeMethod => 9
  | scriptMethod => 10
  | parameterizedProperty => 11
  | memberSet => 12
  | event => 13
  | dynamic => 14

end MemberType

/-- A set of member types, one bit for each. -/
structure TypeMask where
  bits : BitVec 15
  deriving Repr, DecidableEq

namespace TypeMask

def all : TypeMask := ⟨BitVec.allOnes 15⟩

def none : TypeMask := ⟨0⟩

def only (t : MemberType) : TypeMask := ⟨BitVec.twoPow 15 t.index⟩

def union (a b : TypeMask) : TypeMask := ⟨a.bits ||| b.bits⟩

def inter (a b : TypeMask) : TypeMask := ⟨a.bits &&& b.bits⟩

def ofTypes (types : List MemberType) : TypeMask :=
  types.foldl (fun mask t => mask.union (only t)) none

def admits (mask : TypeMask) (t : MemberType) : Bool :=
  mask.bits.getLsbD t.index

/-- The types of members that have a value of their own. -/
def properties : TypeMask :=
  ofTypes [.aliasProperty, .codeProperty, .property, .noteProperty, .scriptProperty,
    .variableProperty, .inferredProperty]

/-- The types of members that can be invoked. -/
def methods : TypeMask :=
  ofTypes [.method, .codeMethod, .scriptMethod, .parameterizedProperty]

@[simp] theorem all_admits (t : MemberType) : all.admits t = true := by
  cases t <;> decide

@[simp] theorem inter_admits (a b : TypeMask) (t : MemberType) :
    (a.inter b).admits t = (a.admits t && b.admits t) := by
  simp [admits, inter]

end TypeMask

namespace MemberType

def isProperty (t : MemberType) : Bool :=
  TypeMask.properties.admits t

def isMethod (t : MemberType) : Bool :=
  TypeMask.methods.admits t

end MemberType

/-- A mark that a member carries or does not. -/
inductive MemberFlag
  /-- Left out unless hidden members are asked for. -/
  | hidden
  /-- Attached to one object rather than shared by a type. -/
  | attached
  /-- One of the grouping members every object has. -/
  | reserved
  /-- Takes part in serialization. -/
  | serialized
  deriving Repr, DecidableEq

structure MemberFlags where
  hidden : Bool
  attached : Bool
  reserved : Bool
  serialized : Bool
  deriving Repr, DecidableEq

namespace MemberFlags

/-- A new member is attached and serialized. -/
def initial : MemberFlags := ⟨false, true, false, true⟩

/-- The grouping members are hidden and reserved. -/
def ofReserved : MemberFlags := ⟨true, false, true, false⟩

def set (flags : MemberFlags) (flag : MemberFlag) (on : Bool) : MemberFlags :=
  match flag with
  | .hidden => { flags with hidden := on }
  | .attached => { flags with attached := on }
  | .reserved => { flags with reserved := on }
  | .serialized => { flags with serialized := on }

end MemberFlags

end DynamicMembers
