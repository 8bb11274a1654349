import DynamicMembers.MemberList
/-!
Members declared for types. What is stored for a type is a template: it is not attached to an
object, and whoever asks for a member of an object is given a copy of it.
-/

namespace DynamicMembers

/-- The members declared for each type, in the order in which the types were declared. -/
abbrev TypeTable := NameMap MemberList

namespace TypeTable

def declareType (table : TypeTable) (typeName : String) : TypeTable :=
  if NameMap.holds typeName table then table else NameMap.insert typeName .empty table

/-- Declares a member for a type, which is declared with it. -/
def declare (table : TypeTable) (typeName : String) (m : Member) : Except MemberError TypeTable :=
  if isReservedName m.name then .error (.reservedName m.name)
  else do
    let template := m.setFlag .attached false
    let declared := (NameMap.lookup typeName table).getD .empty
    let (_, members) ← declared.add template true
    .ok (NameMap.insert typeName members table)

def typeNames (table : TypeTable) : List String :=
  table.map (·.1)

def typeMembers (table : TypeTable) (typeName : String) : List Member :=
  match NameMap.lookup typeName table with
  | some declared => declared.members
  | none => []

/-- The declared types of a chain of type names, under the names they were declared with. -/
def chain (table : TypeTable) (typeNames : List String) : List (String × MemberList) :=
  typeNames.filterMap fun name => table.find? fun entry => sameName entry.1 name

/-- The members declared for a chain of types; of members of one name the first. -/
def membersFor (table : TypeTable) (typeNames : List String) : List Member :=
  firstByName Member.name [] ((table.chain typeNames).flatMap (·.2.members))

/-- The member of a name that the first type of a chain declares. -/
def memberFor? (table : TypeTable) (typeNames : List String) (name : String) : Option Member :=
  (table.chain typeNames).findSome? fun entry => entry.2.find? name

def declaringType? (table : TypeTable) (typeNames : List String) (name : String) :
    Option String :=
  ((table.chain typeNames).find? fun entry => entry.2.contains name).map (·.1)

end TypeTable

end DynamicMembers
