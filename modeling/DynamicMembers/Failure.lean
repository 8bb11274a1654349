import DynamicMembers.Member.Basic
import DynamicMembers.Text.Quoted
import DynamicMembers.Text.Wildcard
import DynamicMembers.Value.Conversion
/-!
Everything that can go wrong, by cause. The wording of every failure is in the `message` functions
of this module and nowhere else.
-/

namespace DynamicMembers

/-- Why a member can not be made. -/
inductive DefinitionFault
  | emptyName
  | noReference
  | noCode
  | getterShape (getter : String)
  | setterShape (setter : String)
  | typeClash (accepted returned : ValueType)
  | noScript
  | methodShape (code : String)
  | ownerNotFirst
  deriving Repr, DecidableEq

namespace DefinitionFault

def message : DefinitionFault → String
  | emptyName => "member name can not be empty"
  | noReference => "alias must reference a member name"
  | noCode => "code property needs a getter or a setter"
  | getterShape getter =>
    s!"getter `{getter}` must take the owner as its only parameter and return a value"
  | setterShape setter => s!"setter `{setter}` must take the owner and the new value"
  | typeClash accepted returned =>
    s!"setter accepts {accepted.name} but getter returns {returned.name}"
  | noScript => "script property needs a getter or a setter script"
  | methodShape code => s!"code method `{code}` must take the owner as its first parameter"
  | ownerNotFirst => "only the first parameter may receive the owner"

end DefinitionFault

/-- Why a value can not be read, before anything is run. -/
inductive GetRefusal
  | noGetter
  | noGetterScript
  | detached
  | writeOnly
  deriving Repr, DecidableEq

namespace GetRefusal

def message : GetRefusal → String
  | noGetter => "property has no getter"
  | noGetterScript => "property has no getter script"
  | detached => "member is not attached to an object"
  | writeOnly => "property is write-only"

end GetRefusal

/-- Why a value can not be written, before anything is run. -/
inductive SetRefusal
  | readOnly
  | detached
  | sharedNote
  | lockedVariable (name : String)
  | indexedReadOnly
  deriving Repr, DecidableEq

namespace SetRefusal

def message : SetRefusal → String
  | readOnly => "property is read-only"
  | detached => "member is not attached to an object"
  | sharedNote => "note properties shared by a type are read-only"
  | lockedVariable name => s!"variable `{name}` is read-only or constant"
  | indexedReadOnly => "parameterized property is read-only"

end SetRefusal

/-- An operation that this kind of member or view does not have. -/
inductive Misuse
  | unknownValue
  | notSettable (type : MemberType)
  | notInvocable (type : MemberType)
  | noIndexedSetter (type : MemberType)
  | storedReserved
  | noMemberList
  deriving Repr, DecidableEq

namespace Misuse

def message : Misuse → String
  | unknownValue => "value of a dynamic member is not known"
  | notSettable type => s!"value of {type.name} members can not be set"
  | notInvocable type => s!"{type.name} members can not be invoked"
  | noIndexedSetter type => s!"{type.name} members have no parameterized setter"
  | storedReserved => "reserved members are generated on access and can not be stored"
  | noMemberList => "this member view has no instance members"

end Misuse

namespace BagRow

def label : BagRow → String
  | entry key => s!"Entry({quoted key})"
  | count => "Count"
  | length => "Length"
  | item => "Item"
  | text => "ToString"
  | equals => "Equals"

end BagRow

/-- Why an adapter does not do what it is asked. -/
inductive AdapterFault
  | foreignData
  | keyGone (key : String)
  | notProperty (row : BagRow) (base : ValueType)
  | rowReadOnly (row : BagRow)
  | notMethod (row : BagRow)
  | notIndexable (row : BagRow)
  | outOfRange (index : Int) (length : Nat)
  | propertyReadOnly
  | indexedUnsupported
  | indexedReadOnly
  deriving Repr, DecidableEq

namespace AdapterFault

def message : AdapterFault → String
  | foreignData => "member was not created by the bag adapter"
  | keyGone key => s!"key `{key}` is no longer present"
  | notProperty row base => s!"{row.label} is not a property of {base.name}"
  | rowReadOnly row => s!"{row.label} is read-only"
  | notMethod row => s!"{row.label} is not a method"
  | notIndexable row => s!"{row.label} is not indexable"
  | outOfRange index length => s!"index {index} is out of range for {length} items"
  | propertyReadOnly => "property is read-only"
  | indexedUnsupported => "parameterized properties are not supported"
  | indexedReadOnly => "parameterized property is read-only"

end AdapterFault

/-- A failure of a script. `terminate` is the wish of a debugger to tear the script down. -/
inductive ScriptError
  | runtime (text : String)
  | flowControl (statement : String)
  | invalidOperation (text : String)
  | terminate
  deriving Repr, DecidableEq

def terminationMessage : String :=
  "script execution was terminated by the debugger"

namespace ScriptError

def message : ScriptError → String
  | runtime text => text
  | flowControl statement => s!"flow control statement `{statement}` escaped the script body"
  | invalidOperation text => text
  | terminate => terminationMessage

end ScriptError

mutual

/-- A failure of access to a member, of a change of a view, or of the making of a member. -/
inductive MemberError
  | configuration (name : String) (fault : DefinitionFault)
  | reservedName (name : String)
  | reservedMemberSet (name : String)
  | adapterMemberNotAddable (name : String) (type : MemberType)
  | memberTypeMismatch (name : String) (type : MemberType)
  | duplicateInTypeConfiguration (name typeName : String)
  | aliasCycle (name : String) (chain : List String)
  | aliasTargetMissing (name target : String)
  | aliasOutsideContainer (name : String)
  | getValue (name : String) (refusal : GetRefusal)
  | getValueInvocation (name : String) (source : Failure)
  | setValue (name : String) (refusal : SetRefusal)
  | setValueInvocation (name : String) (source : Failure)
  | methodInvocation (name : String) (source : Failure)
  | invalidOperation (name : String) (misuse : Misuse)
  | conversion (name : String) (source : ConversionError)
  | invalidPattern (source : WildcardError)
  | terminated

/-- What comes back from code that a member runs: a failure of the code itself, of the way it was
called, or one it met and passed on. -/
inductive Failure
  | text (text : String)
  | detached
  | arity (expected given : Nat)
  | adapter (fault : AdapterFault)
  | conversion (error : ConversionError)
  | script (error : ScriptError)
  | member (error : MemberError)

end

mutual

def MemberError.message : MemberError → String
  | .configuration name fault => s!"invalid definition of member `{name}`: {fault.message}"
  | .reservedName name => s!"`{name}` is a reserved member name"
  | .reservedMemberSet name => s!"member set `{name}` is reserved and can not be modified"
  | .adapterMemberNotAddable name type =>
    s!"{type.name} member `{name}` is supplied by adapters and can not be added directly"
  | .memberTypeMismatch name type =>
    s!"{type.name} member `{name}` does not belong to this member view"
  | .duplicateInTypeConfiguration name typeName =>
    s!"member `{name}` is already declared by the type configuration of `{typeName}`"
  | .aliasCycle name chain =>
    s!"alias `{name}` forms a cycle: " ++ " -> ".intercalate chain
  | .aliasTargetMissing name target =>
    s!"alias `{name}` references member `{target}`, which does not exist"
  | .aliasOutsideContainer name => s!"alias `{name}` is not attached to any object"
  | .getValue name refusal => s!"failed to get value of `{name}`: {refusal.message}"
  | .getValueInvocation name source => s!"exception getting `{name}`: " ++ source.message
  | .setValue name refusal => s!"failed to set value of `{name}`: {refusal.message}"
  | .setValueInvocation name source => s!"exception setting `{name}`: " ++ source.message
  | .methodInvocation name source => s!"exception calling `{name}`: " ++ source.message
  | .invalidOperation name misuse => s!"invalid operation on `{name}`: {misuse.message}"
  | .conversion name _ => s!"failed to convert value of `{name}`"
  | .invalidPattern source => source.message
  | .terminated => terminationMessage

def Failure.message : Failure → String
  | .text text => text
  | .detached => "method is not attached to an object"
  | .arity expected given => s!"expected {expected} arguments, got {given}"
  | .adapter fault => fault.message
  | .conversion error => error.message
  | .script error => error.message
  | .member error => error.message

end

mutual

/-- The messages of the failures below this one, outermost first. -/
def MemberError.causes : MemberError → List String
  | .getValueInvocation _ source => source.message :: source.causes
  | .setValueInvocation _ source => source.message :: source.causes
  | .methodInvocation _ source => source.message :: source.causes
  | .conversion _ source => [source.message]
  | _ => []

def Failure.causes : Failure → List String
  | .member error => error.causes
  | _ => []

end

namespace MemberError

def id : MemberError → String
  | configuration .. => "ets::configuration"
  | reservedName .. => "ets::reserved_name"
  | reservedMemberSet .. => "ets::reserved_member_set"
  | adapterMemberNotAddable .. => "ets::adapter_member_not_addable"
  | memberTypeMismatch .. => "ets::member_type_mismatch"
  | duplicateInTypeConfiguration .. => "ets::duplicate_in_type_configuration"
  | aliasCycle .. => "ets::alias_cycle"
  | aliasTargetMissing .. => "ets::alias_target_missing"
  | aliasOutsideContainer .. => "ets::alias_outside_container"
  | getValue .. => "ets::get_value"
  | getValueInvocation .. => "ets::get_value_invocation"
  | setValue .. => "ets::set_value"
  | setValueInvocation .. => "ets::set_value_invocation"
  | methodInvocation .. => "ets::method_invocation"
  | invalidOperation .. => "ets::invalid_operation"
  | conversion .. => "ets::conversion"
  | invalidPattern .. => "ets::invalid_pattern"
  | terminated => "ets::terminated"

def memberName? : MemberError → Option String
  | configuration name _ => some name
  | reservedName name => some name
  | reservedMemberSet name => some name
  | adapterMemberNotAddable name _ => some name
  | memberTypeMismatch name _ => some name
  | duplicateInTypeConfiguration name _ => some name
  | aliasCycle name _ => some name
  | aliasTargetMissing name _ => some name
  | aliasOutsideContainer name => some name
  | getValue name _ => some name
  | getValueInvocation name _ => some name
  | setValue name _ => some name
  | setValueInvocation name _ => some name
  | methodInvocation name _ => some name
  | invalidOperation name _ => some name
  | conversion name _ => some name
  | invalidPattern _ => none
  | terminated => none

end MemberError

namespace ScriptError

/-- A failure inside a script as a failure of the script: its own stay, termination passes through,
and of any other the message remains. -/
def ofFailure : Failure → ScriptError
  | .script error => error
  | .member .terminated => .terminate
  | failure => .runtime failure.message

/-- A failure of a member's script as a failure of the member; termination is never wrapped. -/
def toMemberError (wrap : Failure → MemberError) : ScriptError → MemberError
  | terminate => .terminated
  | error => wrap (.script error)

end ScriptError

end DynamicMembers
