import DynamicMembers.Store.Basic
/-!
The making of members. A definition is checked before a member is made of it: its name must not be
blank, an alias needs a name to refer to, and native callables must have the shape of their use.
-/

namespace DynamicMembers

namespace CodeReference

def getterFault? (getter : CodeReference) : Option DefinitionFault :=
  if getter.params = [.owner] ∧ getter.returns.isSome then none
  else some (.getterShape getter.name)

/-- What is wrong with the callable as a setter beside a getter that returns `returned`. -/
def setterFault? (setter : CodeReference) (returned : Option ValueType) :
    Option DefinitionFault :=
  match setter.params, returned with
  | [.owner, .value accepted], some returned =>
    if accepted = returned then none else some (.typeClash accepted returned)
  | [.owner, .value _], none => none
  | _, _ => some (.setterShape setter.name)

def methodFault? (code : CodeReference) : Option DefinitionFault :=
  match code.params with
  | .owner :: rest => if rest.contains .owner then some .ownerNotFirst else none
  | _ => some (.methodShape code.name)

end CodeReference

namespace MemberKind

/-- What is wrong with a definition of this kind. -/
def fault? : MemberKind → Option DefinitionFault
  | .aliasOf reference _ => if isBlankText reference then some .noReference else none
  | .code none none => some .noCode
  | .code getter setter =>
    (getter.bind (·.getterFault?)).or
      (setter.bind fun setter => setter.setterFault? (getter.bind (·.returns)))
  | .script none none _ => some .noScript
  | .codeMethod callee => callee.methodFault?
  | _ => none

end MemberKind

def definitionFault? (name : String) (kind : MemberKind) : Option DefinitionFault :=
  if isBlankText name then some .emptyName else kind.fault?

namespace Member

/-- Makes a member that is attached to no object. -/
def define (name : String) (kind : MemberKind) : Run MemberError Member :=
  match definitionFault? name kind with
  | some fault => throw (.configuration name fault)
  | none => do return ⟨← Store.nextMemberId, name, .initial, none, kind⟩

end Member

end DynamicMembers
