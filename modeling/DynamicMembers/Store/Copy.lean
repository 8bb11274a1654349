import DynamicMembers.Store.Basic
/-!
Copies of members. A copy has an identity and an owner of its own. Stored values and nested lists
are copied at every depth; variables, scripts, base values and what an adapter remembers are shared
by a member and its copies.

The list of a member set is filled before the set is made, and what is added to it later is a copy
with lists of its own. So no list is nested in itself, and no chain of nested lists is longer than
there are lists in the store. That number is the bound on the depth of a copy.
-/

namespace DynamicMembers.Store

def copyList (copy : Member → StateM Store Member) (l : ListId) : StateM Store ListId := do
  let members := (← get).list l
  let entries ← members.entries.mapM fun entry => do return (entry.1, ← copy entry.2)
  addList ⟨entries, members.hiddenCount⟩

/-- Copies what a member keeps for itself, given how a nested member is copied. -/
def copyKind (copy : Member → StateM Store Member) : MemberKind → StateM Store MemberKind
  | .note cell => do return .note (← addCell ((← get).cell cell))
  | .captured cell => do return .captured (← addCell ((← get).cell cell))
  | .memberSet (.list l) inherits => do return .memberSet (.list (← copyList copy l)) inherits
  | kind => return kind

/-- Copies a member of at most so many levels for an owner. -/
def copyWithin (owner : Option ObjectId) : Nat → Member → StateM Store Member
  | 0, m => do return { m with id := ← nextMemberId, owner := owner }
  | depth + 1, m => do
    let kind ← copyKind (copyWithin owner depth) m.kind
    return { m with id := ← nextMemberId, owner := owner, kind := kind }

def copyFor (owner : Option ObjectId) (m : Member) : StateM Store Member := do
  copyWithin owner ((← get).lists.size + 1) m

def copy (m : Member) : StateM Store Member :=
  copyFor m.owner m

/-- The member with a mark set or cleared, for a caller who shares the member with others. -/
def copyWithFlag (m : Member) (flag : MemberFlag) (on : Bool) : StateM Store Member := do
  return (← copy m).setFlag flag on

/-- Declares a member for a type, for a caller who shares the member with others. -/
def declareShared (typeName : String) (m : Member) : Run MemberError Unit := do
  let own ← (copy m : StateM Store Member)
  declare typeName own

end DynamicMembers.Store
