import DynamicMembers.Alias
import DynamicMembers.Member.Shape
/-!
What can be done with the value of a member, and which type it has: questions that are answered
without running anything. An alias answers as the member it leads to; the questions of that member
itself are `isSettableItself`, `isGettableItself` and `valueTypeNameItself`.
-/

namespace DynamicMembers.Store

def isSettableItself (adapter : Adapter) (s : Store) (m : Member) : Bool :=
  match m.kind with
  | .code _ setter => setter.isSome
  | .note _ => m.flags.attached
  | .slot target => target.isWritable
  | .script _ setter _ => setter.isSome
  | .adapted binding =>
    (binding.adapter.adapter adapter).isSettable (s.adapterState binding) binding.data
  | .captured _ => true
  | .parameterized binding =>
    (binding.adapter.adapter adapter).isIndexedSettable (s.adapterState binding) binding.data
  | _ => false

def isSettable (adapter : Adapter) (s : Store) (m : Member) : Bool :=
  match m.kind with
  | .aliasOf reference _ =>
    match s.aliasTarget adapter m reference with
    | .ok (_, x) => s.isSettableItself adapter x.member
    | .error _ => false
  | _ => s.isSettableItself adapter m

def isGettableItself (adapter : Adapter) (s : Store) (m : Member) : Bool :=
  match m.kind with
  | .code getter _ => getter.isSome
  | .script getter _ _ => getter.isSome
  | .adapted binding =>
    (binding.adapter.adapter adapter).isGettable (s.adapterState binding) binding.data
  | .dynamic => false
  | _ => true

def isGettable (adapter : Adapter) (s : Store) (m : Member) : Bool :=
  match m.kind with
  | .aliasOf reference _ =>
    match s.aliasTarget adapter m reference with
    | .ok (_, x) => s.isGettableItself adapter x.member
    | .error _ => false
  | _ => s.isGettableItself adapter m

def valueTypeNameItself (adapter : Adapter) (s : Store) (m : Member) : String :=
  match m.kind with
  | .code getter setter => (codeValueType getter setter).name
  | .note cell | .captured cell => (s.cell cell).type.name
  | .slot target => (s.cell target.cell).type.name
  | .aliasOf .. | .script .. => ValueType.any.name
  | .adapted binding =>
    (binding.adapter.adapter adapter).valueType (s.adapterState binding) binding.data
  | .inferred typeName => typeName
  | .parameterized binding => (binding.adapter.adapter adapter).indexedType binding.data
  | .event _ handlerType => handlerType
  | .dynamic => "dynamic"
  | .propertySet .. | .method .. | .codeMethod .. | .scriptMethod .. | .memberSet .. =>
    ValueType.member.name

def valueTypeName (adapter : Adapter) (s : Store) (m : Member) : String :=
  match m.kind with
  | .aliasOf _ (some conversion) => conversion.name
  | .aliasOf reference none =>
    match s.aliasTarget adapter m reference with
    | .ok (_, x) => s.valueTypeNameItself adapter x.member
    | .error _ => ValueType.any.name
  | _ => s.valueTypeNameItself adapter m

end DynamicMembers.Store
