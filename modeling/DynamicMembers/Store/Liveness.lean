import DynamicMembers.Store.Basic
/-!
Which objects are still there. An object stays as long as something that stays refers to it, by way
of values, members and lists. What is held from outside stays, and so does what is declared for
types or kept by an adapter; that members belong to an object does not keep it. Nothing in a circle
of references is ever let go, nor what the circle refers to.

References are counted. A place that nothing refers to is dropped and its own references with it,
which may leave others with none. No place is dropped twice, so their number bounds the rounds.
-/

namespace DynamicMembers

/-- A place of the store that can refer to others. -/
inductive Place
  | cell (c : CellId)
  | list (l : ListId)
  | object (o : ObjectId)
  deriving Repr, DecidableEq

namespace Member

/-- The places a member refers to. -/
def places (m : Member) : List Place :=
  match m.kind with
  | .note cell | .captured cell => [.cell cell]
  | .slot target => [.cell target.cell]
  | .adapted binding | .method binding | .parameterized binding => [.cell binding.base]
  | .memberSet (.list l) _ => [.list l]
  | _ => []

end Member

namespace Value

mutual

/-- The places a value refers to. -/
def places : Value → List Place
  | object o => [.object o]
  | member m => m.places
  | list items => itemPlaces items
  | map entries => entryPlaces entries
  | _ => []

def itemPlaces : List Value → List Place
  | [] => []
  | v :: rest => places v ++ itemPlaces rest

def entryPlaces : List (String × Value) → List Place
  | [] => []
  | (_, v) :: rest => places v ++ entryPlaces rest

end

end Value

namespace Store

/-- The places that a place refers to. An object that was let go refers to nothing. -/
def placesFrom (s : Store) : Place → List Place
  | .cell c => (s.cell c).places
  | .list l => (s.list l).members.flatMap (·.places)
  | .object o =>
    match s.object? o with
    | some state => if state.alive then [.cell state.base, .list state.members] else []
    | none => []

def allPlaces (s : Store) : List Place :=
  (List.range s.cells.size).map (fun i => .cell ⟨i⟩) ++
    (List.range s.lists.size).map (fun i => .list ⟨i⟩) ++
    (List.range s.objects.size).map (fun i => .object ⟨i⟩)

def placeNumber (s : Store) : Place → Nat
  | .cell c => c.index
  | .list l => s.cells.size + l.index
  | .object o => s.cells.size + s.lists.size + o.index

/-- The places that the store itself holds: those of declarations, and of values on the shelf. -/
def ownPlaces (s : Store) : List Place :=
  s.types.flatMap (fun entry => entry.2.members.flatMap (·.places)) ++
    s.shelf.toList.flatMap (·.places)

def countIn (s : Store) (referred : List Place) (tally : Array Nat) : Array Nat :=
  referred.foldl (fun tally p => tally.modify (s.placeNumber p) (· + 1)) tally

/-- How often each place is referred to, from outside, by the store and by other places. -/
def tally (s : Store) (held : List Place) : Array Nat :=
  let places := s.allPlaces
  places.foldl (fun tally p => s.countIn (s.placesFrom p) tally)
    (s.countIn (held ++ s.ownPlaces) (Array.replicate places.length 0))

def isLoose (s : Store) (tally : Array Nat) (p : Place) : Bool :=
  tally[s.placeNumber p]?.getD 0 == 0

/-- The tally without these references, and the places that they leave with none, in front of
those that wait to be dropped. -/
def countOut (s : Store) : List Place → List Place → Array Nat → List Place × Array Nat
  | [], waiting, tally => (waiting, tally)
  | p :: referred, waiting, tally =>
    let tally := tally.modify (s.placeNumber p) (· - 1)
    if s.isLoose tally p then s.countOut referred (p :: waiting) tally
    else s.countOut referred waiting tally

/-- The tally when the waiting places are dropped, and all that then wait in turn. -/
def dropLoose (s : Store) : Nat → List Place → Array Nat → Array Nat
  | 0, _, tally => tally
  | _, [], tally => tally
  | rounds + 1, p :: waiting, tally =>
    let (waiting, tally) := s.countOut (s.placesFrom p) waiting tally
    s.dropLoose rounds waiting tally

def holdsAll (s : Store) (held : List Place) : Bool :=
  (List.range s.objects.size).all fun i => !s.isAlive ⟨i⟩ || held.contains (.object ⟨i⟩)

/-- Lets go every object that neither what is held nor a circle refers to. Where all objects are
held there is none to look for. -/
def releaseUnreachable (s : Store) (held : List Place) : Store :=
  if s.holdsAll held then s
  else
    let places := s.allPlaces
    let tally := s.tally held
    let left := s.dropLoose places.length (places.filter (s.isLoose tally)) tally
    (List.range s.objects.size).foldl (fun released i =>
      if s.isLoose left (.object ⟨i⟩) then released.release ⟨i⟩ else released) s

end Store

end DynamicMembers
