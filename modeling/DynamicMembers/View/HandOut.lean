import DynamicMembers.Store.Copy
import DynamicMembers.View.Lookup
/-!
Members as views hand them out. What is stored is handed out as it is. Of what is declared for a
type or supplied by an adapter the caller gets a copy that belongs to the object, so nothing done
to it touches the declaration. One grouping member is made anew every time.
-/

namespace DynamicMembers.View

/-- The member a caller gets for a sighting. -/
def handOut (v : View) (x : Sighting) : StateM Store Member :=
  match x.origin with
  | .reserved .adapted => do return { x.member with id := ← Store.nextMemberId }
  | .reserved _ | .stored => return x.member
  | .declared | .supplied => Store.copyFor v.owner? x.member

def handOut? (v : View) : Option Sighting → StateM Store (Option Member)
  | some x => some <$> v.handOut x
  | none => return none

def get? (adapter : Adapter) (v : View) (name : String) : StateM Store (Option Member) := do
  v.handOut? (v.find? adapter (← get) name)

def first? (adapter : Adapter) (v : View) (p : String → Bool) : StateM Store (Option Member) := do
  v.handOut? (v.firstSuch? adapter (← get) p)

def matching (adapter : Adapter) (v : View) (pattern : Wildcard) (types : TypeMask)
    (options : MatchOptions) : StateM Store (List Member) := do
  (v.sightings adapter (← get) pattern types options).mapM v.handOut

/-- The members that match the text of a pattern, a mask and options. -/
def matchingText (adapter : Adapter) (v : View) (pattern : String) (types : TypeMask)
    (options : MatchOptions) : Run MemberError (List Member) :=
  match Wildcard.parse pattern with
  | .ok pattern => v.matching adapter pattern types options
  | .error fault => throw (.invalidPattern fault)

def visible (adapter : Adapter) (v : View) : StateM Store (List Member) :=
  v.matching adapter .everything .all .visible

def members (adapter : Adapter) (v : View) : StateM Store (List Member) :=
  v.matching adapter .everything .all .everything

end DynamicMembers.View
