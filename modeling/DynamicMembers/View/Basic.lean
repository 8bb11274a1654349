import DynamicMembers.Environment
import DynamicMembers.Store.Liveness
/-!
Views: what an object, one of its grouping members or a member set shows of members. A view is only
a way of looking; what it shows is found in the store when it is asked.
-/

namespace DynamicMembers

/-- What a view shows. -/
inductive Scope
  /-- All members of an object. -/
  | object (owner : ObjectId)
  /-- What a grouping member shows of its object, if that is still there. -/
  | grouping (view : ReservedView) (owner : Option ObjectId)
  /-- The members in the list of a member set, and if it inherits, those of its owner. -/
  | set (name : String) (list : ListId) (owner : Option ObjectId) (inherits locked : Bool)
  deriving Repr, DecidableEq

/-- A view and the types of members it is limited to. -/
structure View where
  scope : Scope
  mask : TypeMask
  deriving Repr, DecidableEq

/-- Where members come from that are in no list. -/
inductive Source
  /-- The declarations for the types of the owner. -/
  | declarations
  /-- The adapter of the model. -/
  | adapter
  /-- Everything the owner shows. -/
  | owner
  deriving Repr, DecidableEq

namespace View

def ofObject (o : ObjectId) : View := ⟨.object o, .all⟩

/-- The view of a member set. -/
def ofMember? (s : Store) (m : Member) : Option View :=
  match m.kind with
  | .memberSet (.reserved view) _ => some ⟨.grouping view (s.ownerOf m), .all⟩
  | .memberSet (.list l) inherits =>
    some ⟨.set m.name l (s.ownerOf m) inherits m.flags.reserved, .all⟩
  | _ => none

def withMask (v : View) (mask : TypeMask) : View := { v with mask := mask }

/-- The object whose members are shown. -/
def owner? (v : View) : Option ObjectId :=
  match v.scope with
  | .object o => some o
  | .grouping _ owner => owner
  | .set _ _ owner _ _ => owner

/-- The list in which a view stores members. -/
def list? (s : Store) (v : View) : Option ListId :=
  match v.scope with
  | .object o => (s.object? o).map (·.members)
  | .grouping view owner =>
    match view with
    | .base | .adapted => none
    | .extended | .object => (owner.bind s.object?).map (·.members)
  | .set _ l _ _ _ => some l

/-- What stays as long as the view is in use: its owner and its list. -/
def places (s : Store) (v : View) : List Place :=
  v.owner?.toList.map .object ++ (v.list? s).toList.map .list

/-- What a view draws on beside its list, in order. -/
def sources (v : View) : List Source :=
  match v.scope with
  | .object _ => [.declarations, .adapter]
  | .grouping view _ =>
    match view with
    | .base | .adapted | .object => [.adapter]
    | .extended => []
  | .set _ _ _ inherits _ => if inherits then [.owner] else []

def showsReserved (v : View) : Bool :=
  match v.scope with
  | .object _ => true
  | _ => false

/-- May nothing be added or removed through the view? -/
def isReadOnly (v : View) : Bool :=
  match v.scope with
  | .object _ => false
  | .grouping _ _ => true
  | .set _ _ _ _ locked => locked

/-- The name under which changes of a view are refused. -/
def setName (v : View) : String :=
  match v.scope with
  | .object _ => ""
  | .grouping view _ => view.name
  | .set name _ _ _ _ => name

/-- Are additions checked against the declarations, and announced? -/
def checksDeclarations (v : View) : Bool :=
  v.showsReserved

def admits (v : View) (m : Member) : Bool :=
  v.mask.admits m.type

end View

end DynamicMembers
