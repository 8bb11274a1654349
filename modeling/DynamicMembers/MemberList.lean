import DynamicMembers.Failure
/-!
Lists of members: in order of insertion, one member for each name without regard to case, with a
count of the hidden ones that is kept along.
-/

namespace DynamicMembers

structure MatchOptions where
  includeHidden : Bool
  onlySerializable : Bool
  deriving Repr, DecidableEq

namespace MatchOptions

def visible : MatchOptions := ⟨false, false⟩

def everything : MatchOptions := ⟨true, false⟩

end MatchOptions

namespace Member

def passes (m : Member) (types : TypeMask) (options : MatchOptions) : Bool :=
  types.admits m.type && (!m.flags.hidden || options.includeHidden) &&
    (!options.onlySerializable || m.flags.serialized)

end Member

/-- Members by name, and how many of them are hidden. An entry is found under the name it was first
written with; its member may spell the name differently. -/
structure MemberList where
  entries : NameMap Member
  hiddenCount : Nat
  deriving Repr, DecidableEq

namespace MemberList

def empty : MemberList := ⟨[], 0⟩

instance : Inhabited MemberList := ⟨empty⟩

def members (l : MemberList) : List Member :=
  l.entries.map (·.2)

def find? (l : MemberList) (name : String) : Option Member :=
  l.entries.lookup name

def at? (l : MemberList) (i : Nat) : Option Member :=
  l.members[i]?

def contains (l : MemberList) (name : String) : Bool :=
  l.entries.holds name

def size (l : MemberList) : Nat :=
  l.entries.length

def visibleSize (l : MemberList) : Nat :=
  l.size - l.hiddenCount

/-- One for a hidden member, zero for another or none. -/
def hiddenWeight : Option Member → Nat
  | some m => if m.flags.hidden then 1 else 0
  | none => 0

/-- Adds a member, in the place of one of the same name if there is one, and returns that one. Only
a caller that vouches for the member may add a reserved one. -/
def add (l : MemberList) (m : Member) (vouched : Bool) :
    Except MemberError (Option Member × MemberList) :=
  if isReservedName m.name then .error (.reservedName m.name)
  else if !vouched && m.flags.reserved then .error (.invalidOperation m.name .storedReserved)
  else
    let replaced := l.find? m.name
    .ok (replaced, {
      entries := l.entries.insert m.name m
      hiddenCount := l.hiddenCount + hiddenWeight (some m) - hiddenWeight replaced })

/-- Adds members one after another, not vouched for. -/
def addAll (l : MemberList) : List Member → Except MemberError MemberList
  | [] => .ok l
  | m :: rest => do
    let (_, l) ← l.add m false
    l.addAll rest

def ofMembers (members : List Member) : Except MemberError MemberList :=
  empty.addAll members

def remove (l : MemberList) (name : String) : Except MemberError (Option Member × MemberList) :=
  if isReservedName name then .error (.reservedName name)
  else
    let removed := l.find? name
    .ok (removed, {
      entries := l.entries.erase name
      hiddenCount := l.hiddenCount - hiddenWeight removed })

/-- The members that match a pattern, a mask and options; one name is looked up directly. -/
def matching (l : MemberList) (pattern : Wildcard) (types : TypeMask) (options : MatchOptions) :
    List Member :=
  match pattern.exactName with
  | some name => ((l.find? name).filter (·.passes types options)).toList
  | none => l.members.filter fun m => pattern.accepts m.name && m.passes types options

def firstMatching? (l : MemberList) (p : String → Bool) : Option Member :=
  l.members.find? fun m => p m.name

end MemberList

end DynamicMembers
