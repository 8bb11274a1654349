import DynamicMembers.View.Basic
/-!
What a view shows. A view draws on layers: the grouping members of its owner, its list, and its
sources. Earlier layers come first; a name they claim is not found in a later one.

A look-up stops at the first layer that has a member of the name and of an admitted type. A search
for a predicate asks each layer but the first for one member only, and drops that member if its
type is not admitted. Enumeration claims names first and selects types afterwards.
-/

namespace DynamicMembers

/-- Which layer a member was found in. -/
inductive Origin
  | reserved (which : ReservedMember)
  | stored
  | declared
  | supplied
  deriving Repr, DecidableEq

/-- A member as a layer has it, before it is handed out. -/
structure Sighting where
  member : Member
  origin : Origin
  deriving Repr, DecidableEq

namespace Sighting

def name (x : Sighting) : String := x.member.name

end Sighting

/-- A layer of members, listed only when they are asked for, and its own way to find one by name. -/
structure Layer where
  listing : Thunk (List Sighting)
  find? : String → Option Sighting

namespace Layer

def members (layer : Layer) : List Sighting :=
  layer.listing.get

/-- The grouping members of an object. -/
def reserved (o : ObjectId) : Layer where
  listing := .mk fun _ =>
    ReservedMember.all.map fun which => ⟨.reserved o which, .reserved which⟩
  find? name := (ReservedMember.ofName? name).map fun which =>
    ⟨.reserved o which, .reserved which⟩

def stored (l : MemberList) : Layer where
  listing := .mk fun _ => l.members.map (⟨·, .stored⟩)
  find? name := (l.find? name).map (⟨·, .stored⟩)

def declared (table : TypeTable) (typeNames : List String) : Layer where
  listing := .mk fun _ => (table.membersFor typeNames).map (⟨·, .declared⟩)
  find? name := (table.memberFor? typeNames name).map (⟨·, .declared⟩)

/-- The members that an adapter lists for a base value. A row that is found but can not be a member
hides the rows behind it. -/
def supplied (adapter : Adapter) (base : CellId) (value : Value) : Layer where
  listing := .mk fun _ =>
    ((adapter.rows value).filterMap (·.toMember? .model base)).map (⟨·, .supplied⟩)
  find? name :=
    (((adapter.rows value).find? fun row => sameName row.name name).bind
      (·.toMember? .model base)).map (⟨·, .supplied⟩)

/-- The first of many layers that has a name. -/
def findIn (layers : List Layer) (name : String) : Option Sighting :=
  layers.findSome? (·.find? name)

/-- All members of many layers, each name from the first layer that has it. -/
def unionOf (layers : List Layer) : List Sighting :=
  firstByName Sighting.name [] (layers.flatMap (·.members))

end Layer

namespace Store

def declaredLayer (s : Store) (o : ObjectId) : Layer :=
  .declared s.types (s.typeNames o)

def suppliedLayer (adapter : Adapter) (s : Store) (o : ObjectId) : Layer :=
  match s.object? o with
  | some state => .supplied adapter state.base (s.cell state.base)
  | none => ⟨.pure [], fun _ => none⟩

/-- Everything that an object shows, as one layer. -/
def ownerLayer (adapter : Adapter) (s : Store) (o : ObjectId) : Layer :=
  let stored := ((s.object? o).map fun state => Layer.stored (s.list state.members)).toList
  let layers := stored ++ [s.declaredLayer o, s.suppliedLayer adapter o]
  { listing := .mk fun _ => Layer.unionOf (.reserved o :: layers)
    find? := fun name =>
      if isReservedName name then (Layer.reserved o).find? name else Layer.findIn layers name }

end Store

namespace Source

def layer (adapter : Adapter) (s : Store) (o : ObjectId) : Source → Layer
  | .declarations => s.declaredLayer o
  | .adapter => s.suppliedLayer adapter o
  | .owner => s.ownerLayer adapter o

end Source

namespace View

def reservedLayer? (v : View) : Option Layer :=
  if v.showsReserved then v.owner?.map Layer.reserved else none

def storedLayer? (s : Store) (v : View) : Option Layer :=
  (v.list? s).map fun l => .stored (s.list l)

def sourceLayers (adapter : Adapter) (s : Store) (v : View) : List Layer :=
  match v.owner? with
  | some o => v.sources.map (·.layer adapter s o)
  | none => []

/-- All layers of a view, in order. -/
def layers (adapter : Adapter) (s : Store) (v : View) : List Layer :=
  v.reservedLayer?.toList ++ (v.storedLayer? s).toList ++ v.sourceLayers adapter s

/-- Finds a member by name. A reserved name is found among the grouping members or not at all. -/
def find? (adapter : Adapter) (s : Store) (v : View) (name : String) : Option Sighting :=
  let admitted (layer : Layer) := (layer.find? name).filter fun x => v.admits x.member
  if v.showsReserved && isReservedName name then v.reservedLayer?.bind admitted
  else ((v.storedLayer? s).toList ++ v.sourceLayers adapter s).findSome? admitted

def contains (adapter : Adapter) (s : Store) (v : View) (name : String) : Bool :=
  (v.find? adapter s name).isSome

/-- Finds a first member whose name satisfies a predicate. -/
def firstSuch? (adapter : Adapter) (s : Store) (v : View) (p : String → Bool) :
    Option Sighting :=
  let admitted (found : Option Sighting) := found.filter fun x => v.admits x.member
  let amongReserved := v.reservedLayer?.bind fun layer =>
    layer.members.find? fun x => p x.name && v.admits x.member
  let inList := (v.storedLayer? s).bind fun layer =>
    admitted (layer.members.find? fun x => p x.name)
  let inSource (layer : Layer) :=
    admitted (layer.members.find? fun x => p x.name && !isReservedName x.name)
  (amongReserved.or inList).or ((v.sourceLayers adapter s).findSome? inSource)

/-- Everything the layers have, each name once, whatever its type. -/
def union (adapter : Adapter) (s : Store) (v : View) : List Sighting :=
  Layer.unionOf (v.layers adapter s)

def sightings (adapter : Adapter) (s : Store) (v : View) (pattern : Wildcard)
    (types : TypeMask) (options : MatchOptions) : List Sighting :=
  (v.union adapter s).filter fun x =>
    pattern.accepts x.name && x.member.passes (types.inter v.mask) options

def allSightings (adapter : Adapter) (s : Store) (v : View) : List Sighting :=
  v.sightings adapter s .everything .all .everything

def visibleSightings (adapter : Adapter) (s : Store) (v : View) : List Sighting :=
  v.sightings adapter s .everything .all .visible

/-- The member that the list of a view itself has under a name. -/
def attached? (s : Store) (v : View) (name : String) : Option Member :=
  (v.list? s).bind fun l => ((s.list l).find? name).filter v.admits

end View

end DynamicMembers
