import DynamicMembers.Proofs.View.Agreement
import DynamicMembers.Proofs.World.Deeds

/-! # Where what a view shows comes from

Whatever a view shows, by name, by a predicate or in a listing, is one of five things: a
grouping member of its owner, a member in its own list or, if it inherits, in the list of
its owner, a declaration, or a row of the adapter (`View.Draws`).
-/
namespace DynamicMembers

/-! ## Views of member sets -/

namespace View

variable {s : Store} {m : Member} {v : View}

/-- A member set shows what its owner has, or it has a list. -/
theorem ofMember?_cases (h : ofMember? s m = some v) :
    (∃ view inherits, m.kind = .memberSet (.reserved view) inherits ∧
      v = ⟨.grouping view (s.ownerOf m), .all⟩) ∨
    ∃ l inherits, m.kind = .memberSet (.list l) inherits ∧
      v = ⟨.set m.name l (s.ownerOf m) inherits m.flags.reserved, .all⟩ := by
  unfold ofMember? at h
  split at h
  next view inherits hkind => exact .inl ⟨view, inherits, hkind, (Option.some.inj h).symm⟩
  next l inherits hkind => exact .inr ⟨l, inherits, hkind, (Option.some.inj h).symm⟩
  next => cases h

theorem owner?_of_ofMember? (h : ofMember? s m = some v) : v.owner? = s.ownerOf m := by
  rcases ofMember?_cases h with ⟨_, _, _, rfl⟩ | ⟨_, _, _, rfl⟩ <;> rfl

theorem withMask_of_ofMember? (h : ofMember? s m = some v) : v.withMask .all = v := by
  rcases ofMember?_cases h with ⟨_, _, _, rfl⟩ | ⟨_, _, _, rfl⟩ <;> rfl

theorem type_of_ofMember? (h : ofMember? s m = some v) : m.type = .memberSet := by
  rcases ofMember?_cases h with ⟨_, _, hkind, _⟩ | ⟨_, _, hkind, _⟩ <;> rw [Member.type, hkind] <;>
    rfl

theorem list?_of_ofMember? {l : ListId} (h : ofMember? s m = some v)
    (hl : m.kind.list? = some l) : v.list? s = some l := by
  rcases ofMember?_cases h with ⟨_, _, hkind, rfl⟩ | ⟨_, _, hkind, rfl⟩ <;> rw [hkind] at hl
  · cases hl
  · exact hl

theorem locked_of_list?_eq_none (h : ofMember? s m = some v) (hl : m.kind.list? = none) :
    v.isReadOnly = true ∧ ∃ view inherits, m.kind = .memberSet (.reserved view) inherits := by
  rcases ofMember?_cases h with ⟨view, inherits, hkind, rfl⟩ | ⟨_, _, hkind, _⟩
  · exact ⟨rfl, view, inherits, hkind⟩
  · rw [hkind] at hl
    cases hl

end View

/-! ## Layers -/

/-- Where a view has a member from. -/
inductive View.Draws (adapter : Adapter) (s : Store) (v : View) : Sighting → Prop
  | reserved {o : ObjectId} {which : ReservedMember} (ho : v.owner? = some o) :
      Draws adapter s v ⟨.reserved o which, .reserved which⟩
  | stored {l : ListId} {m : Member} (hl : v.list? s = some l) (hm : m ∈ (s.list l).members) :
      Draws adapter s v ⟨m, .stored⟩
  | inherited {o : ObjectId} {state : ObjectState} {m : Member} (ho : v.owner? = some o)
      (hstate : s.object? o = some state) (hm : m ∈ (s.list state.members).members) :
      Draws adapter s v ⟨m, .stored⟩
  | declared {o : ObjectId} {entry : String × MemberList} {m : Member} (ho : v.owner? = some o)
      (hentry : entry ∈ s.types) (hm : m ∈ entry.2.members) : Draws adapter s v ⟨m, .declared⟩
  | supplied {o : ObjectId} {state : ObjectState} {row : AdapterRow} {m : Member}
      (ho : v.owner? = some o) (hstate : s.object? o = some state)
      (hrow : row.toMember? .model state.base = some m) : Draws adapter s v ⟨m, .supplied⟩

theorem NameMap.exists_mem_of_lookup {α : Type} {m : NameMap α} {name : String} {a : α}
    (h : m.lookup name = some a) : ∃ entry ∈ m, entry.2 = a := by
  rw [lookup_eq_find?] at h
  obtain ⟨entry, hfind, rfl⟩ := Option.map_eq_some_iff.mp h
  exact ⟨entry, List.mem_of_find?_eq_some hfind, rfl⟩

theorem MemberList.mem_of_find? {l : MemberList} {name : String} {m : Member}
    (h : l.find? name = some m) : m ∈ l.members := by
  obtain ⟨entry, hentry, rfl⟩ := NameMap.exists_mem_of_lookup h
  exact List.mem_map_of_mem hentry

namespace TypeTable

variable {table : TypeTable} {typeNames : List String} {m : Member}

theorem exists_of_membersFor (h : m ∈ table.membersFor typeNames) :
    ∃ entry ∈ table, m ∈ entry.2.members := by
  obtain ⟨entry, hentry, hm⟩ := List.mem_flatMap.mp (mem_of_mem_firstByName h)
  exact ⟨entry, mem_of_mem_chain hentry, hm⟩

theorem exists_of_memberFor? {name : String} (h : table.memberFor? typeNames name = some m) :
    ∃ entry ∈ table, m ∈ entry.2.members := by
  obtain ⟨entry, hentry, hm⟩ := List.exists_of_findSome?_eq_some h
  exact ⟨entry, mem_of_mem_chain hentry, MemberList.mem_of_find? hm⟩

end TypeTable

namespace Layer

/-- All that the layer has, in its listing or by name. -/
structure All (P : Sighting → Prop) (layer : Layer) : Prop where
  members : ∀ x ∈ layer.members, P x
  find? : ∀ {name x}, layer.find? name = some x → P x

variable {P : Sighting → Prop}

theorem all_reserved {o : ObjectId} (h : ∀ which, P ⟨.reserved o which, .reserved which⟩) :
    (reserved o).All P where
  members x hx := by
    obtain ⟨which, -, rfl⟩ := List.mem_map.mp hx
    exact h which
  find? {name x} hx := by
    obtain ⟨which, -, rfl⟩ := Option.map_eq_some_iff.mp hx
    exact h which

theorem all_stored {l : MemberList} (h : ∀ m ∈ l.members, P ⟨m, .stored⟩) : (stored l).All P where
  members x hx := by
    obtain ⟨m, hm, rfl⟩ := List.mem_map.mp hx
    exact h m hm
  find? {name x} hx := by
    obtain ⟨m, hm, rfl⟩ := Option.map_eq_some_iff.mp hx
    exact h m (MemberList.mem_of_find? hm)

theorem all_declared {table : TypeTable} {typeNames : List String}
    (h : ∀ entry ∈ table, ∀ m ∈ entry.2.members, P ⟨m, .declared⟩) :
    (declared table typeNames).All P where
  members x hx := by
    obtain ⟨m, hm, rfl⟩ := List.mem_map.mp hx
    obtain ⟨entry, hentry, hm⟩ := TypeTable.exists_of_membersFor hm
    exact h entry hentry m hm
  find? {name x} hx := by
    obtain ⟨m, hm, rfl⟩ := Option.map_eq_some_iff.mp hx
    obtain ⟨entry, hentry, hm⟩ := TypeTable.exists_of_memberFor? hm
    exact h entry hentry m hm

theorem all_supplied {adapter : Adapter} {base : CellId} {value : Value}
    (h : ∀ (row : AdapterRow) m, row.toMember? .model base = some m → P ⟨m, .supplied⟩) :
    (supplied adapter base value).All P where
  members x hx := by
    obtain ⟨m, hm, rfl⟩ := List.mem_map.mp hx
    obtain ⟨row, -, hrow⟩ := List.mem_filterMap.mp hm
    exact h row m hrow
  find? {name x} hx := by
    obtain ⟨m, hm, rfl⟩ := Option.map_eq_some_iff.mp hx
    obtain ⟨row, -, hrow⟩ := Option.bind_eq_some_iff.mp hm
    exact h row m hrow

theorem forall_unionOf {layers : List Layer} (h : ∀ layer ∈ layers, layer.All P) :
    ∀ x ∈ unionOf layers, P x := by
  intro x hx
  obtain ⟨layer, hlayer, hx⟩ := List.mem_flatMap.mp (mem_of_mem_firstByName hx)
  exact (h layer hlayer).members x hx

theorem of_findIn {layers : List Layer} (h : ∀ layer ∈ layers, layer.All P) {name : String}
    {x : Sighting} (hx : findIn layers name = some x) : P x := by
  obtain ⟨layer, hlayer, hx⟩ := List.exists_of_findSome?_eq_some hx
  exact (h layer hlayer).find? hx

end Layer

namespace View

variable {adapter : Adapter} {s : Store} {v : View} {o : ObjectId}

theorem all_suppliedLayer (ho : v.owner? = some o) :
    (s.suppliedLayer adapter o).All (v.Draws adapter s) := by
  unfold Store.suppliedLayer
  split
  next state hstate => exact Layer.all_supplied fun row m hrow => .supplied ho hstate hrow
  next => exact ⟨fun x hx => absurd hx List.not_mem_nil, fun hx => by cases hx⟩

theorem all_declaredLayer (ho : v.owner? = some o) :
    (s.declaredLayer o).All (v.Draws adapter s) :=
  Layer.all_declared fun _ hentry _ hm => .declared ho hentry hm

theorem all_ownerLayer (ho : v.owner? = some o) :
    (s.ownerLayer adapter o).All (v.Draws adapter s) := by
  have hreserved : (Layer.reserved o).All (v.Draws adapter s) :=
    Layer.all_reserved fun _ => .reserved ho
  have hlayers : ∀ layer ∈ ((s.object? o).map fun state =>
      Layer.stored (s.list state.members)).toList ++
        [s.declaredLayer o, s.suppliedLayer adapter o], layer.All (v.Draws adapter s) := by
    intro layer hlayer
    simp only [List.mem_cons, List.mem_append, Option.mem_toList, Option.map_eq_some_iff,
      List.not_mem_nil, or_false] at hlayer
    rcases hlayer with ⟨state, hstate, rfl⟩ | rfl | rfl
    · exact Layer.all_stored fun m hm => .inherited ho hstate hm
    · exact all_declaredLayer ho
    · exact all_suppliedLayer ho
  refine ⟨Layer.forall_unionOf (List.forall_mem_cons.mpr ⟨hreserved, hlayers⟩),
    fun {name x} hx => ?_⟩
  replace hx : (if isReservedName name then (Layer.reserved o).find? name
    else Layer.findIn _ name) = some x := hx
  split at hx
  · exact hreserved.find? hx
  · exact Layer.of_findIn hlayers hx

theorem all_reservedLayer? {layer : Layer} (h : v.reservedLayer? = some layer) :
    layer.All (v.Draws adapter s) := by
  unfold reservedLayer? at h
  split at h
  · obtain ⟨o, ho, rfl⟩ := Option.map_eq_some_iff.mp h
    exact Layer.all_reserved fun _ => .reserved ho
  · cases h

theorem all_storedLayer? {layer : Layer} (h : v.storedLayer? s = some layer) :
    layer.All (v.Draws adapter s) := by
  obtain ⟨l, hl, rfl⟩ := Option.map_eq_some_iff.mp h
  exact Layer.all_stored fun m hm => .stored hl hm

theorem all_sourceLayers : ∀ layer ∈ v.sourceLayers adapter s, layer.All (v.Draws adapter s) := by
  intro layer hlayer
  unfold sourceLayers at hlayer
  split at hlayer
  next o ho =>
    obtain ⟨source, -, rfl⟩ := List.mem_map.mp hlayer
    cases source with
    | declarations => exact all_declaredLayer ho
    | adapter => exact all_suppliedLayer ho
    | owner => exact all_ownerLayer ho
  next => cases hlayer

theorem all_layers : ∀ layer ∈ v.layers adapter s, layer.All (v.Draws adapter s) := by
  intro layer hlayer
  rcases List.mem_append.mp hlayer with hlayer | hsource
  · rcases List.mem_append.mp hlayer with hreserved | hstored
    · exact all_reservedLayer? (Option.mem_toList.mp hreserved)
    · exact all_storedLayer? (Option.mem_toList.mp hstored)
  · exact all_sourceLayers layer hsource

/-- What is found under a name was found in a layer. A limit to types only leaves things out. -/
theorem exists_layer_of_find? {name : String} {x : Sighting} (h : v.find? adapter s name = some x) :
    ∃ layer ∈ v.layers adapter s, layer.find? name = some x ∧ v.admits x.member = true := by
  unfold find? at h
  dsimp only at h
  split at h
  · obtain ⟨layer, hlayer, hx⟩ := Option.bind_eq_some_iff.mp h
    refine ⟨layer, ?_, Option.filter_eq_some_iff.mp hx⟩
    exact List.mem_append_left _ (List.mem_append_left _ (Option.mem_toList.mpr hlayer))
  · obtain ⟨layer, hlayer, hx⟩ := List.exists_of_findSome?_eq_some h
    refine ⟨layer, ?_, Option.filter_eq_some_iff.mp hx⟩
    rw [layers, List.append_assoc]
    exact List.mem_append_right _ hlayer

section

variable {P : Sighting → Prop} {x : Sighting} (hlayers : ∀ layer ∈ v.layers adapter s, layer.All P)
include hlayers

theorem of_find? {name : String} (h : v.find? adapter s name = some x) : P x := by
  obtain ⟨layer, hlayer, hx, -⟩ := exists_layer_of_find? h
  exact (hlayers layer hlayer).find? hx

theorem of_firstSuch? {p : String → Bool} (h : v.firstSuch? adapter s p = some x) : P x := by
  unfold firstSuch? at h
  dsimp only at h
  rcases Option.or_eq_some_iff.mp h with h | ⟨-, h⟩
  · rcases Option.or_eq_some_iff.mp h with h | ⟨-, h⟩
    · obtain ⟨layer, hlayer, hx⟩ := Option.bind_eq_some_iff.mp h
      refine (hlayers layer ?_).members x (List.mem_of_find?_eq_some hx)
      exact List.mem_append_left _ (List.mem_append_left _ (Option.mem_toList.mpr hlayer))
    · obtain ⟨layer, hlayer, hx⟩ := Option.bind_eq_some_iff.mp h
      refine (hlayers layer ?_).members x
        (List.mem_of_find?_eq_some (Option.filter_eq_some_iff.mp hx).1)
      exact List.mem_append_left _ (List.mem_append_right _ (Option.mem_toList.mpr hlayer))
  · obtain ⟨layer, hlayer, hx⟩ := List.exists_of_findSome?_eq_some h
    exact (hlayers layer (List.mem_append_right _ hlayer)).members x
      (List.mem_of_find?_eq_some (Option.filter_eq_some_iff.mp hx).1)

/-- What all layers of a view have in common, all has that the view shows. -/
theorem of_shows (h : v.Shows adapter s x) : P x := by
  cases h with
  | found h => exact of_find? hlayers h
  | such h => exact of_firstSuch? hlayers h
  | listed h => exact Layer.forall_unionOf hlayers x h

end

theorem draws_of_find? {name : String} {x : Sighting} (h : v.find? adapter s name = some x) :
    v.Draws adapter s x :=
  of_find? all_layers h

theorem draws_of_shows {x : Sighting} (h : v.Shows adapter s x) : v.Draws adapter s x :=
  of_shows all_layers h

/-! ## One thing handed out -/

variable {t : Store} {m : Member}

theorem run_handOut?_eq_some (found : Option Sighting)
    (h : (v.handOut? found).run s = (some m, t)) :
    ∃ x, found = some x ∧ (v.handOut x).run s = (m, t) := by
  cases found with
  | none => cases h
  | some x =>
    have hrun : (v.handOut? (some x)).run s =
      (some ((v.handOut x).run s).1, ((v.handOut x).run s).2) := rfl
    rw [hrun, Prod.mk.injEq, Option.some.injEq] at h
    exact ⟨x, rfl, Prod.ext h.1 h.2⟩

theorem run_mapM_singleton {x : Sighting} (h : (v.handOut x).run s = (m, t)) :
    ([x].mapM v.handOut).run s = ([m], t) := by
  rw [List.mapM_cons, StateT.run_bind, h]
  rfl

end View

end DynamicMembers
