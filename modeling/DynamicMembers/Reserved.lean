import DynamicMembers.Text.Caseless
/-!
The five grouping members that every object has, their reserved names, and what four of them show.
-/

namespace DynamicMembers

/-- A grouping member. -/
inductive ReservedMember
  | base
  | adapted
  | extended
  | object
  | typeNames
  deriving Repr, DecidableEq

/-- What a grouping member shows of an object. -/
inductive ReservedView
  /-- The members the adapter supplies. -/
  | base
  /-- The members the adapter supplies, under a member made anew each time. -/
  | adapted
  /-- The members attached to the object. -/
  | extended
  /-- The members attached to the object, then those the adapter supplies. -/
  | object
  deriving Repr, DecidableEq

namespace ReservedMember

def all : List ReservedMember := [base, adapted, extended, object, typeNames]

def name : ReservedMember → String
  | base => "PSBase"
  | adapted => "PSAdapted"
  | extended => "PSExtended"
  | object => "PSObject"
  | typeNames => "PSTypeNames"

def ofName? (name : String) : Option ReservedMember :=
  all.find? fun r => sameName r.name name

def view : ReservedMember → Option ReservedView
  | base => some .base
  | adapted => some .adapted
  | extended => some .extended
  | object => some .object
  | typeNames => none

end ReservedMember

namespace ReservedView

def member : ReservedView → ReservedMember
  | base => .base
  | adapted => .adapted
  | extended => .extended
  | object => .object

def name (view : ReservedView) : String :=
  view.member.name

end ReservedView

def isReservedName (name : String) : Bool :=
  ReservedMember.all.any fun r => sameName r.name name

theorem isReservedName_eq_isSome (name : String) :
    isReservedName name = (ReservedMember.ofName? name).isSome := by
  rw [isReservedName, ReservedMember.ofName?, List.isSome_find?]

theorem isReservedName_congr {a b : String} (h : sameName a b = true) :
    isReservedName a = isReservedName b := by
  simp [isReservedName, sameName_congr_right h]

end DynamicMembers
