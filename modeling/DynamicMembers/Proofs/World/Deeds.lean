import DynamicMembers.Declaration.Load
import DynamicMembers.Proofs.Store.Commands
import DynamicMembers.Proofs.Store.Parts
import DynamicMembers.Proofs.Value.Members

/-! # What can be done from outside

A member is got hold of by making it, by copying it or from a view, and only what is
held can be used: no one can make up the identity of a cell or a list. So a world is a
store together with what is held of it, and a deed is one thing that is done with what is
held (`World.Deed`). The steps of a store leave open which member is put where; a deed
puts a copy into the list of a view, and nothing else.

A member can also be made of what another member is made of, or of a part of it. Then both
have the same cell or list, whoever they belong to. Views do not give anyone what a member is
made of, so deeds come with a parameter that says whether it is shared like that.

Deeds are small enough for what a callable or a script does half-way. What is done to the
types of a model beside them is a change (`World.Change`).
-/
namespace DynamicMembers

/-- What a view shows at some moment: what it finds, or what it lists. -/
inductive View.Shows (adapter : Adapter) (s : Store) (v : View) : Sighting → Prop
  | found {name : String} {x : Sighting} (h : v.find? adapter s name = some x) :
      Shows adapter s v x
  | such {p : String → Bool} {x : Sighting} (h : v.firstSuch? adapter s p = some x) :
      Shows adapter s v x
  | listed {x : Sighting} (h : x ∈ v.union adapter s) : Shows adapter s v x

/-- A store and what is held of it. -/
structure World where
  store : Store
  members : List Member
  /-- What members can be made of that keep a value or have members nested in them. -/
  kinds : List MemberKind
  /-- The cells of variables and base values. -/
  cells : List CellId
  scripts : List ScriptId

namespace World

def initial (shelf : Array Value) : World := ⟨.initial shelf, [], [], [], []⟩

/-- The members in the value are held. -/
def Knows (w : World) (v : Value) : Prop := ∀ m ∈ v.members, m ∈ w.members

/-- A cell that members share is got from a member that is held, or it is the base value of an
object. -/
inductive Lends (w : World) (kind : MemberKind) (c : CellId) : Prop
  | member {m : Member} (hm : m ∈ w.members) (hc : m.kind.sharedCell? = some c)
      (hslot : m.kind.slot? = kind.slot?)
  | object {o : ObjectId} {state : ObjectState} (ho : w.store.object? o = some state)
      (hbase : state.base = c) (hslot : kind.slot? = none)

/-- A member can be made of this. All of it is held, or it is what a member that is held is made of:
perhaps in part, or to run its scripts another way. -/
structure Offers (sharing : Bool) (w : World) (kind : MemberKind) : Prop where
  own : kind.own ≠ [] → kind ∈ w.kinds ∨ sharing = true ∧ ∃ m ∈ w.members, m.kind.own = kind.own
  shared : ∀ c ∈ kind.sharedCell?, c ∈ w.cells ∨ sharing = true ∧ w.Lends kind c
  scripts : ∀ script ∈ kind.scripts, script.1 ∈ w.scripts ∨
    sharing = true ∧ ∃ m ∈ w.members, script.1 ∈ m.kind.scripts.map Prod.fst

section

variable {sharing : Bool} {w : World} {kind : MemberKind}

theorem Offers.made (hown : kind.own ≠ [] → kind ∈ w.kinds)
    (hshared : ∀ c ∈ kind.sharedCell?, c ∈ w.cells)
    (hscripts : ∀ script ∈ kind.scripts, script.1 ∈ w.scripts) : w.Offers sharing kind :=
  ⟨fun h => .inl (hown h), fun c hc => .inl (hshared c hc),
    fun script hscript => .inl (hscripts script hscript)⟩

theorem Offers.alike {m : Member} (h : sharing = true) (hm : m ∈ w.members) :
    w.Offers sharing m.kind where
  own _ := .inr ⟨h, m, hm, rfl⟩
  shared _ hc := .inr ⟨h, .member hm hc rfl⟩
  scripts _ hscript := .inr ⟨h, m, hm, List.mem_map_of_mem hscript⟩

end

/-- The view of an object, or of a member set that is held. -/
inductive Sees (w : World) : View → Prop
  | object {o : ObjectId} (ho : o.index < w.store.objects.size) (mask : TypeMask) :
      Sees w ((View.ofObject o).withMask mask)
  | member {m : Member} {v : View} (hm : m ∈ w.members) (hv : View.ofMember? w.store m = some v)
      (mask : TypeMask) : Sees w (v.withMask mask)

/-- A cell that can be written: that of a member or a variable that is held, or of the base value
of a member or an object. -/
inductive Writes (w : World) : CellId → Prop
  | own {m : Member} {c : CellId} (hm : m ∈ w.members) (hc : m.kind.cell? = some c) : Writes w c
  | shared {m : Member} {c : CellId} (hm : m ∈ w.members) (hc : m.kind.sharedCell? = some c) :
      Writes w c
  | held {c : CellId} (hc : c ∈ w.cells) : Writes w c
  | base {o : ObjectId} {state : ObjectState} (ho : w.store.object? o = some state) :
      Writes w state.base

def withStore (w : World) (s : Store) : World := { w with store := s }

/-- The operation is done, and the members are held that come of it. -/
def gain {α : Type} (w : World) (x : StateM Store α) (got : α → List Member) : World :=
  { w with store := w.store.after x, members := got (x.run w.store).1 ++ w.members }

def returned {ε α : Type} : Except ε α → List α
  | .ok a => [a]
  | .error _ => []

/-- One thing that is done with what is held. -/
inductive Deed (sharing : Bool) : World → World → Prop
  /-- A place for a value that a member is to keep. -/
  | keep {w : World} {v : Value} (hv : w.Knows v) :
      Deed sharing w { w with
        store := w.store.after (Store.addCell v)
        kinds := .note ⟨w.store.cells.size⟩ :: .captured ⟨w.store.cells.size⟩ :: w.kinds }
  /-- A place for a variable or a base value. -/
  | share {w : World} {v : Value} (hv : w.Knows v) :
      Deed sharing w { w with
        store := w.store.after (Store.addCell v)
        cells := ⟨w.store.cells.size⟩ :: w.cells }
  | write {w : World} (script : Script)
      (h : ∀ block, script.blocks.template = some block → block = ⟨script.text, 0⟩) :
      Deed sharing w { w with
        store := { w.store with scripts := w.store.scripts.push script }
        scripts := ⟨w.store.scripts.size⟩ :: w.scripts }
  /-- A list for a member set, of members that are held. -/
  | group {w : World} {members : List Member} {l : MemberList}
      (hm : ∀ m ∈ members, m ∈ w.members) (h : MemberList.ofMembers members = .ok l)
      (inherits : Bool) :
      Deed sharing w { w with
        store := w.store.after (Store.addList l)
        kinds := .memberSet (.list ⟨w.store.lists.size⟩) inherits :: w.kinds }
  | define {w : World} {kind : MemberKind} (name : String) (hk : w.Offers sharing kind) :
      Deed sharing w (w.gain (Member.define name kind).run returned)
  | copy {w : World} {m : Member} {owner : Option ObjectId} (hm : m ∈ w.members)
      (ho : ∀ o ∈ owner, o.index < w.store.objects.size) :
      Deed sharing w (w.gain (Store.copyFor owner m) ([·]))
  | setFlag {w : World} {m : Member} (hm : m ∈ w.members) (flag : MemberFlag) (on : Bool) :
      Deed sharing w { w with members := m.setFlag flag on :: w.members }
  /-- Members are handed out by a view. -/
  | get {w : World} {v : View} {adapter : Adapter} {xs : List Sighting} (hv : w.Sees v)
      (hx : ∀ x ∈ xs, v.Shows adapter w.store x) :
      Deed sharing w (w.gain (xs.mapM v.handOut) id)
  | add {w : World} {v : View} {m : Member} (hv : w.Sees v) (hm : m ∈ w.members)
      (vouched : Bool) : Deed sharing w (w.gain (v.add m vouched).run returned)
  | remove {w : World} {v : View} (hv : w.Sees v) (name : String) :
      Deed sharing w (w.gain (v.remove name).run fun removed =>
        (returned removed).flatMap (·.toList))
  | setCell {w : World} {c : CellId} {v : Value} (hc : w.Writes c) (hv : w.Knows v) :
      Deed sharing w (w.withStore (w.store.setCell c v))
  | setShelf {w : World} {shelf : Array Value} (hv : ∀ v ∈ shelf, w.Knows v) :
      Deed sharing w (w.withStore { w.store with shelf := shelf })
  /-- Who reads a value gets hold of the members in it. -/
  | readCell {w : World} (c : CellId) :
      Deed sharing w { w with members := (w.store.cell c).members ++ w.members }
  | readShelf {w : World} {v : Value} (hv : v ∈ w.store.shelf) :
      Deed sharing w { w with members := v.members ++ w.members }
  | wrap {w : World} {v : Value} (hv : w.Knows v) (typeNames : List String) :
      Deed sharing w (w.withStore (w.store.after (Store.wrapAs v typeNames)))
  | insertTypeName {w : World} (o : ObjectId) (name : String) :
      Deed sharing w (w.withStore (w.store.insertTypeName o name))
  | release {w : World} (o : ObjectId) : Deed sharing w (w.withStore (w.store.release o))
  /-- The blocks of a script, compiled if need be, are those that remain when a run begins. -/
  | checkOut {w : World} {env : Environment} {i : ScriptId} {template : Block}
      {blocks : Blocks Block}
      (h : (i.prepare env).run.run w.store = (.ok (template, blocks), w.store)) (onCopy : Bool) :
      Deed sharing w (w.withStore (w.store.setScript i
        { w.store.script i with blocks := (blocks.checkOut template onCopy).2.2 }))
  | checkIn {w : World} (i : ScriptId) (block : Block) :
      Deed sharing w (w.withStore (w.store.setScript i
        { w.store.script i with blocks := (w.store.script i).blocks.checkIn block }))
  | logMode {w : World} (mode : ErrorMode) :
      Deed sharing w (w.withStore { w.store with modes := w.store.modes.push mode })
  | takeModes {w : World} : Deed sharing w (w.withStore (w.store.after Store.takeModes))
  | takeAnnounced {w : World} : Deed sharing w (w.withStore (w.store.after Store.takeAnnounced))

/-- What is held stays held. -/
theorem Deed.members_subset {sharing : Bool} {w w' : World} (h : Deed sharing w w') :
    w.members ⊆ w'.members := by
  cases h with
  | setFlag hm flag on => exact List.subset_cons_self _ _
  | define | copy | get | add | remove | readCell | readShelf => exact List.subset_append_right _ _
  | _ => exact List.Subset.refl _

abbrev Deeds (sharing : Bool) : World → World → Prop := Relation.ReflTransGen (Deed sharing)

theorem Deeds.members_subset {sharing : Bool} {w w' : World} (h : Deeds sharing w w') :
    w.members ⊆ w'.members := by
  induction h with
  | refl => exact List.Subset.refl _
  | tail _ hlast ih => exact List.Subset.trans ih hlast.members_subset

/-- A deed, or something that is done to the types of the model. -/
inductive Change : World → World → Prop
  | deed {w w' : World} (h : Deed true w w') : Change w w'
  | declareType {w : World} (name : String) :
      Change w (w.withStore { w.store with types := w.store.types.declareType name })
  /-- What is declared is then shared with the declarations. -/
  | declare {w : World} {m : Member} (hm : m ∈ w.members) (typeName : String) :
      Change w (w.withStore (w.store.after (Store.declare typeName m).run))
  | load {w : World} (env : Environment) (text : String) :
      Change w (w.withStore (w.store.after (env.loadTypes text).run))

abbrev Changes : World → World → Prop := Relation.ReflTransGen Change

theorem changes_of_deeds {w w' : World} (h : Deeds true w w') : Changes w w' :=
  h.lift id fun _ _ => .deed

theorem Changes.members_subset {w w' : World} (h : Changes w w') : w.members ⊆ w'.members := by
  induction h with
  | refl => exact List.Subset.refl _
  | tail _ hlast ih =>
    refine List.Subset.trans ih ?_
    cases hlast with
    | deed h => exact h.members_subset
    | declareType | declare | load => exact List.Subset.refl _

/-! ## Stores of worlds -/

section

variable {sharing : Bool} {w w' : World}

theorem Deed.steps (h : Deed sharing w w') : Store.Steps w.store w'.store := by
  cases h with
  | keep | share => exact .single (.addCell _)
  | write script h => exact .single (.addScript script)
  | group hm h inherits => exact .single (.addList h)
  | define name hk => exact Member.stepwise_define name _ w.store
  | copy => exact .single (.copyFor _ _)
  | setFlag | readCell | readShelf => exact .refl
  | @get v adapter xs hv hx =>
    exact Store.Within.mapM (R := Store.Steps) v.within_handOut xs w.store
  | @add v m hv hm vouched => exact v.stepwise_add m vouched w.store
  | @remove v hv name => exact v.within_remove (R := Store.Steps) name w.store
  | setCell => exact .single (.setCell _ _)
  | setShelf => exact .single (.setShelf _)
  | wrap => exact .single (.wrapAs _ _)
  | insertTypeName o name => exact .single (.insertTypeName o name)
  | release o => exact .single (.release o)
  | checkOut | checkIn => exact .single (.setScript _ _)
  | logMode mode => exact .single (.logMode mode)
  | takeModes => exact .single .takeModes
  | takeAnnounced => exact .single .takeAnnounced

theorem Change.steps (h : Change w w') : Store.Steps w.store w'.store := by
  cases h with
  | deed h => exact h.steps
  | declareType name => exact .single (.declareType name)
  | declare hm typeName => exact .single (.declare typeName _)
  | load env text => exact env.stepwise_loadTypes text w.store

end

end World

end DynamicMembers
