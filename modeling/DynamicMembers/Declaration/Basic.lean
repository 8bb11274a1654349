import DynamicMembers.Value.Basic
/-!
Declarations of types and their members, as a configuration states them: native callables by name,
scripts by text, and nothing checked yet.
-/

namespace DynamicMembers

mutual

inductive DeclaredKind
  | note (value : Value)
  | aliasOf (reference : String) (conversion : Option ValueType)
  | script (getter setter : Option String)
  | code (getter setter : Option String)
  | scriptMethod (script : String)
  | codeMethod (code : String)
  | propertySet (references : List String)
  | memberSet (inherits : Bool) (members : List MemberDeclaration)

inductive MemberDeclaration
  | declare (name : String) (hidden : Bool) (kind : DeclaredKind)

end

namespace MemberDeclaration

def name : MemberDeclaration → String
  | declare name _ _ => name

end MemberDeclaration

structure TypeDeclaration where
  name : String
  members : List MemberDeclaration

end DynamicMembers
