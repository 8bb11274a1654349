import DynamicMembers.Environment
/-!
How callables and methods show their shape: the type of a computed value, and the definitions of a
method, one for each of its overloads.
-/

namespace DynamicMembers

namespace CodeReference

def definition (code : CodeReference) (name : String) : String :=
  let returns := (code.returns.map (·.name)).getD "void"
  s!"static {returns} {name}(" ++ ", ".intercalate (code.params.map (·.name)) ++ ")"

/-- The type of value that a setter takes. -/
def acceptedType? (setter : CodeReference) : Option ValueType :=
  setter.valueParams.head?.map fun
    | .value type => type
    | .owner => .object

end CodeReference

/-- The type of the value of a code property: what the getter returns, or else what the setter
takes. -/
def codeValueType (getter setter : Option CodeReference) : ValueType :=
  ((getter.bind (·.returns)).or (setter.bind (·.acceptedType?))).getD .any

namespace Member

/-- The definitions of a method, given the adapter of the model. -/
def overloads (model : Adapter) (m : Member) : List String :=
  match m.kind with
  | .method binding => (binding.adapter.adapter model).definitions binding.data
  | .codeMethod callee => [callee.definition m.name]
  | .scriptMethod .. => [s!"any {m.name}();"]
  | .parameterized binding => (binding.adapter.adapter model).indexedDefinitions binding.data
  | _ => []

end Member

end DynamicMembers
