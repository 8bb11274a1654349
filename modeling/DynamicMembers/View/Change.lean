import DynamicMembers.View.HandOut
/-!
Changes of a view. What is added is a copy that belongs to the owner of the view; the one who adds
a member keeps a member of its own.
-/

namespace DynamicMembers.View

def declaringType? (s : Store) (v : View) (name : String) : Option String :=
  if v.checksDeclarations then
    v.owner?.bind fun o => s.types.declaringType? (s.typeNames o) name
  else none

/-- Why a member may not be added, if it may not. A caller that vouches for the member is spared
all but the first checks. -/
def addRefusal? (s : Store) (v : View) (m : Member) (vouched : Bool) : Option MemberError :=
  if v.isReadOnly then some (.reservedMemberSet v.setName)
  else if isReservedName m.name then some (.reservedName m.name)
  else if vouched then none
  else if m.type = .property ∨ m.type = .method then
    some (.adapterMemberNotAddable m.name m.type)
  else if !v.admits m then some (.memberTypeMismatch m.name m.type)
  else (v.declaringType? s m.name).map (.duplicateInTypeConfiguration m.name)

/-- Says that a member was attached to the owner of the view. -/
def announce (v : View) (name : String) : StateM Store Unit :=
  match v.owner? with
  | some o =>
    if v.checksDeclarations then modify fun s => s.announce (s.typeNames o) name else return ()
  | none => return ()

/-- Adds a copy of a member to the list of the view and returns the copy. -/
def add (v : View) (m : Member) (vouched : Bool) : Run MemberError Member := do
  let s ← get
  match v.addRefusal? s m vouched, v.list? s with
  | some refusal, _ => throw refusal
  | none, none => throw (.invalidOperation m.name .noMemberList)
  | none, some l => do
    let copy ← (Store.copyFor (v.owner?.or m.owner) m : StateM Store Member)
    let _ ← Store.addToList l copy true
    v.announce copy.name
    return copy

/-- Why the member of a name may not be removed, if it may not. -/
def removeRefusal? (s : Store) (v : View) (name : String) : Option MemberError :=
  if v.isReadOnly then some (.reservedMemberSet v.setName)
  else if isReservedName name then some (.reservedName name)
  else
    match (v.list? s).bind fun l => (s.list l).find? name with
    | some m => if v.admits m then none else some (.memberTypeMismatch m.name m.type)
    | none => none

/-- Takes the member of a name out of the list of the view and returns it, if there is one. -/
def remove (v : View) (name : String) : Run MemberError (Option Member) := do
  let s ← get
  match v.removeRefusal? s name, v.list? s with
  | some refusal, _ => throw refusal
  | none, none => return none
  | none, some l => Store.removeFromList l name

end DynamicMembers.View
