import DynamicMembers.Proofs.Store.WellNamed
import DynamicMembers.Proofs.Text.BlankNames
import DynamicMembers.Proofs.View.HandedOut
import Mathlib.Data.List.Find

/-! # Looking up and listing agree

A layer finds a member by name without listing itself, each kind of layer in its own
way. All of them find the first member of that name in their listing (`Layer.Lawful`).
A view with no limit to the types of members then finds in its layers, one after
another, what the enumeration of all layers has under that name.
-/
namespace DynamicMembers

theorem findSome?_eq_find?_flatMap {α β : Type} {as : List α} {find : α → Option β}
    {listing : α → List β} {p : β → Bool} (h : ∀ a ∈ as, find a = (listing a).find? p) :
    as.findSome? find = (as.flatMap listing).find? p := by
  induction as with
  | nil => rfl
  | cons a as ih =>
    have hrest := ih fun b hb => h b (List.mem_cons_of_mem a hb)
    rw [List.flatMap_cons, List.find?_append, ← h a List.mem_cons_self, ← hrest,
      List.findSome?_cons]
    cases find a <;> rfl

/-- The key of an entry and the name of its member need not be spelled alike. -/
theorem MemberList.WellNamed.find?_eq {l : MemberList} (hl : l.WellNamed) (name : String) :
    l.find? name = l.members.find? fun m => sameName m.name name := by
  have hkey : ∀ entry ∈ l.entries, sameName entry.1 name = sameName entry.2.name name := by
    intro entry hentry
    exact sameName_congr_left (hl.keyed entry hentry) name
  rw [MemberList.find?, NameMap.lookup_eq_find?, List.find?_congr hkey, members, List.find?_map]
  rfl

namespace TypeTable

variable {table : TypeTable}

theorem mem_of_mem_chain {typeNames : List String} {entry : String × MemberList}
    (h : entry ∈ table.chain typeNames) : entry ∈ table := by
  obtain ⟨name, -, hfind⟩ := List.mem_filterMap.mp h
  exact List.mem_of_find?_eq_some hfind

theorem memberFor?_eq (ht : ∀ entry ∈ table, entry.2.WellNamed) (typeNames : List String)
    (name : String) :
    table.memberFor? typeNames name =
      (table.membersFor typeNames).find? fun m => sameName m.name name := by
  rw [memberFor?, membersFor, find?_firstByName (by simp)]
  refine findSome?_eq_find?_flatMap fun entry hentry => ?_
  exact (ht entry (mem_of_mem_chain hentry)).find?_eq name

end TypeTable

namespace AdapterRow

theorem toMember?_eq_none {row : AdapterRow} (h : isBlankText row.name = true)
    (tag : AdapterTag) (base : CellId) : row.toMember? tag base = none := by
  rw [toMember?, if_pos h]

/-- Has the member that a row becomes, if it becomes one, this name? -/
theorem any_toMember? (row : AdapterRow) (tag : AdapterTag) (base : CellId) (name : String) :
    ((row.toMember? tag base).any fun m => sameName m.name name) =
      (!isBlankText name && sameName row.name name) := by
  cases hsame : sameName row.name name with
  | true =>
    rw [← isBlankText_congr hsame, toMember?]
    split <;> simp_all
  | false =>
    rw [toMember?]
    split <;> simp [hsame]

/-- A row with a blank name hides the later rows of that name from a look-up. They are no
members either, since they are blank as well. -/
theorem bind_find?_toMember? (rows : List AdapterRow) (tag : AdapterTag) (base : CellId)
    (name : String) :
    (rows.find? fun row => sameName row.name name).bind (·.toMember? tag base) =
      (rows.filterMap (·.toMember? tag base)).find? fun m => sameName m.name name := by
  rw [List.find?_filterMap]
  cases hblank : isBlankText name with
  | true =>
    have hlisted : (rows.find? fun row =>
        (row.toMember? tag base).any fun m => sameName m.name name) = none := by
      simp [any_toMember?, hblank]
    rw [hlisted]
    cases hfind : rows.find? fun row => sameName row.name name with
    | none => rfl
    | some row =>
      have hsame : sameName row.name name = true := by simpa using List.find?_some hfind
      exact toMember?_eq_none ((isBlankText_congr hsame).trans hblank) tag base
  | false =>
    refine congrArg (Option.bind · _) (List.find?_congr fun row _ => ?_)
    rw [any_toMember?, hblank, Bool.not_false, Bool.true_and]

end AdapterRow

/-! ## Layers -/

namespace Layer

/-- What a layer finds under a name is the first of that name in its listing. -/
def Lawful (layer : Layer) : Prop :=
  ∀ name, layer.find? name = layer.members.find? fun x => sameName x.name name

theorem members_reserved (o : ObjectId) :
    (reserved o).members =
      ReservedMember.all.map fun which => ⟨.reserved o which, .reserved which⟩ := rfl

theorem members_stored (l : MemberList) : (stored l).members = l.members.map (⟨·, .stored⟩) := rfl

theorem members_declared (table : TypeTable) (typeNames : List String) :
    (declared table typeNames).members = (table.membersFor typeNames).map (⟨·, .declared⟩) := rfl

theorem members_supplied (adapter : Adapter) (base : CellId) (value : Value) :
    (supplied adapter base value).members =
      ((adapter.rows value).filterMap (·.toMember? .model base)).map (⟨·, .supplied⟩) := rfl

theorem lawful_reserved (o : ObjectId) : (reserved o).Lawful := by
  intro name
  rw [members_reserved, List.find?_map]
  rfl

theorem lawful_stored {l : MemberList} (hl : l.WellNamed) : (stored l).Lawful := by
  intro name
  rw [members_stored, List.find?_map]
  show (l.find? name).map _ = _
  rw [hl.find?_eq]
  rfl

theorem lawful_declared {table : TypeTable} (ht : ∀ entry ∈ table, entry.2.WellNamed)
    (typeNames : List String) : (declared table typeNames).Lawful := by
  intro name
  rw [members_declared, List.find?_map]
  show (table.memberFor? typeNames name).map _ = _
  rw [table.memberFor?_eq ht]
  rfl

theorem lawful_supplied (adapter : Adapter) (base : CellId) (value : Value) :
    (supplied adapter base value).Lawful := by
  intro name
  rw [members_supplied, List.find?_map]
  exact congrArg (Option.map _) (AdapterRow.bind_find?_toMember? _ .model base name)

theorem lawful_absent : Lawful ⟨.pure [], fun _ => none⟩ := fun _ => rfl

theorem isSome_find?_reserved (o : ObjectId) (name : String) :
    ((reserved o).find? name).isSome = isReservedName name := by
  rw [isReservedName_eq_isSome]
  exact Option.isSome_map

variable {layers : List Layer}

theorem findIn_eq (h : ∀ layer ∈ layers, layer.Lawful) (name : String) :
    findIn layers name = (unionOf layers).find? fun x => sameName x.name name := by
  rw [findIn, unionOf, find?_firstByName (by simp)]
  exact findSome?_eq_find?_flatMap fun layer hlayer => h layer hlayer name

/-- A reserved name is found among the grouping members, whatever comes behind them. -/
theorem findIn_reserved_cons (o : ObjectId) (name : String) :
    findIn (reserved o :: layers) name =
      if isReservedName name then (reserved o).find? name else findIn layers name := by
  rw [← isSome_find?_reserved o name, findIn, List.findSome?_cons]
  cases (reserved o).find? name <;> rfl

end Layer

/-! ## The layers of a view -/

namespace Store

variable {s : Store} (adapter : Adapter)

theorem lawful_declaredLayer (hs : s.WellNamed) (o : ObjectId) : (s.declaredLayer o).Lawful :=
  Layer.lawful_declared hs.types (s.typeNames o)

theorem lawful_suppliedLayer (o : ObjectId) : (s.suppliedLayer adapter o).Lawful := by
  unfold suppliedLayer
  split
  · exact Layer.lawful_supplied adapter _ _
  · exact Layer.lawful_absent

/-- A reserved name is the first in the listing, whatever the other layers have. -/
theorem lawful_ownerLayer (hs : s.WellNamed) (o : ObjectId) :
    (s.ownerLayer adapter o).Lawful := by
  intro name
  have hlayers : ∀ layer ∈ Layer.reserved o ::
      (((s.object? o).map fun state => Layer.stored (s.list state.members)).toList ++
        [s.declaredLayer o, s.suppliedLayer adapter o]), layer.Lawful := by
    intro layer hlayer
    simp only [List.mem_cons, List.mem_append, Option.mem_toList,
      Option.map_eq_some_iff, List.not_mem_nil, or_false] at hlayer
    rcases hlayer with rfl | ⟨state, -, rfl⟩ | rfl | rfl
    · exact Layer.lawful_reserved o
    · exact Layer.lawful_stored (hs.lists _)
    · exact lawful_declaredLayer hs o
    · exact lawful_suppliedLayer adapter o
  exact (Layer.findIn_reserved_cons o name).symm.trans (Layer.findIn_eq hlayers name)

end Store

namespace View

variable {s : Store} (adapter : Adapter)

theorem lawful_layers (hs : s.WellNamed) (v : View) :
    ∀ layer ∈ v.layers adapter s, layer.Lawful := by
  intro layer hlayer
  rcases List.mem_append.mp hlayer with hlayer | hsource
  · rcases List.mem_append.mp hlayer with hreserved | hstored
    · unfold reservedLayer? at hreserved
      split at hreserved
      · obtain ⟨o, -, rfl⟩ := Option.map_eq_some_iff.mp (Option.mem_toList.mp hreserved)
        exact Layer.lawful_reserved o
      · simp at hreserved
    · obtain ⟨l, -, rfl⟩ := Option.map_eq_some_iff.mp (Option.mem_toList.mp hstored)
      exact Layer.lawful_stored (hs.lists l)
  · unfold sourceLayers at hsource
    split at hsource
    · rename_i o _
      obtain ⟨source, -, rfl⟩ := List.mem_map.mp hsource
      cases source with
      | declarations => exact Store.lawful_declaredLayer hs o
      | adapter => exact Store.lawful_suppliedLayer adapter o
      | owner => exact Store.lawful_ownerLayer adapter hs o
    · simp at hsource

variable {v : View}

theorem admits_of_mask_all (hv : v.mask = .all) (m : Member) : v.admits m = true := by
  rw [admits, hv, TypeMask.all_admits]

theorem allSightings_of_mask_all (hv : v.mask = .all) :
    v.allSightings adapter s = v.union adapter s := by
  refine List.filter_eq_self.mpr fun x _ => ?_
  simp [Member.passes, MatchOptions.everything, hv]

theorem exists_owner_of_showsReserved (h : v.showsReserved = true) : ∃ o, v.owner? = some o := by
  cases hscope : v.scope with
  | object o => exact ⟨o, by rw [owner?, hscope]⟩
  | grouping view owner => simp [showsReserved, hscope] at h
  | set name list owner inherits locked => simp [showsReserved, hscope] at h

theorem find?_of_mask_all (hv : v.mask = .all) (name : String) :
    v.find? adapter s name = Layer.findIn (v.layers adapter s) name := by
  have hadmitted : (fun layer : Layer => (layer.find? name).filter fun x => v.admits x.member) =
      fun layer => layer.find? name := by
    funext layer
    cases layer.find? name <;> simp [admits_of_mask_all hv]
  rw [find?, hadmitted, layers, List.append_assoc]
  cases hshows : v.showsReserved with
  | true =>
    obtain ⟨o, howner⟩ := exists_owner_of_showsReserved hshows
    have hlayer : v.reservedLayer? = some (.reserved o) := by
      rw [reservedLayer?, if_pos hshows, howner, Option.map_some]
    rw [hlayer, Bool.true_and]
    exact (Layer.findIn_reserved_cons o name).symm
  | false =>
    have hlayer : v.reservedLayer? = none := by simp [reservedLayer?, hshows]
    rw [hlayer]
    rfl

/-- A look-up finds the first of that name in the enumeration. -/
theorem find?_eq_find?_allSightings (hs : s.WellNamed) (hv : v.mask = .all) (name : String) :
    v.find? adapter s name =
      (v.allSightings adapter s).find? fun x => sameName x.name name := by
  rw [find?_of_mask_all adapter hv, allSightings_of_mask_all adapter hv]
  exact Layer.findIn_eq (v.lawful_layers adapter hs) name

/-- An enumeration has each name once, whatever it selects. -/
theorem pairwise_sightings (pattern : Wildcard) (types : TypeMask) (options : MatchOptions) :
    (v.sightings adapter s pattern types options).Pairwise fun x y =>
      sameName x.name y.name = false :=
  pairwise_firstByName.filter _

/-! ## Members -/

/-- The names of the members that are handed out are those that were enumerated. -/
theorem pairwise_matching (pattern : Wildcard) (types : TypeMask) (options : MatchOptions) :
    ((v.matching adapter pattern types options).run s).1.Pairwise fun m other =>
      sameName m.name other.name = false := by
  have hcopies := forall₂_matching adapter v v.isCopy_handOut pattern types options s
  refine List.pairwise_iff_getElem.mpr fun i j hi hj hlt => ?_
  obtain ⟨x, hx, hxm⟩ := exists_getElem?_of_forall₂ hcopies (List.getElem?_eq_getElem hi)
  obtain ⟨y, hy, hym⟩ := exists_getElem?_of_forall₂ hcopies (List.getElem?_eq_getElem hj)
  obtain ⟨hi', rfl⟩ := List.getElem?_eq_some_iff.mp hx
  obtain ⟨hj', rfl⟩ := List.getElem?_eq_some_iff.mp hy
  rw [hxm.name, hym.name]
  exact List.pairwise_iff_getElem.mp (v.pairwise_sightings adapter pattern types options)
    i j hi' hj' hlt

/-- What a view finds and what it lists under a name are the same. -/
structure Agrees (adapter : Adapter) (s : Store) (v : View) (name : String) : Prop where
  /-- No two members are listed under one name. -/
  distinct : ((v.members adapter).run s).1.Pairwise fun m other =>
    sameName m.name other.name = false
  found_iff : ((v.get? adapter name).run s).1.isSome = true ↔
    ∃ m ∈ ((v.members adapter).run s).1, sameName m.name name = true
  /-- The member that is found and the one that is listed show the same sighting. -/
  alike : ∀ (m : Member) (i : Nat) (other : Member), ((v.get? adapter name).run s).1 = some m →
    ((v.members adapter).run s).1[i]? = some other → sameName other.name name = true →
      m.Alike other ∧ ∃ x, v.find? adapter s name = some x ∧
        (v.allSightings adapter s)[i]? = some x

/-- A view that is not limited to types of members finds what it lists, under every name. -/
theorem agrees_of_mask_all (hs : s.Reachable) (hv : v.mask = .all) (name : String) :
    v.Agrees adapter s name := by
  have hfind := find?_eq_find?_allSightings adapter hs.wellNamed hv name
  have hcopies : List.Forall₂ (fun x m => x.member.IsCopy (v.ownerFor x) m)
      (v.allSightings adapter s) ((v.members adapter).run s).1 :=
    forall₂_matching adapter v v.isCopy_handOut .everything .all .everything s
  refine ⟨v.pairwise_matching adapter .everything .all .everything, ?_, ?_⟩
  · rw [isSome_get?, hfind, List.find?_isSome]
    constructor
    · intro ⟨x, hx, hname⟩
      obtain ⟨m, hm, hcopy⟩ := exists_mem_of_forall₂ hcopies.flip hx
      exact ⟨m, hm, by rwa [hcopy.name]⟩
    · intro ⟨m, hm, hname⟩
      obtain ⟨x, hx, hcopy⟩ := exists_mem_of_forall₂ hcopies hm
      exact ⟨x, hx, by rwa [Sighting.name, ← hcopy.name]⟩
  · intro m i other hm hother hname
    obtain ⟨y, hy, hcopy⟩ := exists_getElem?_of_forall₂ hcopies hother
    have hyname : sameName y.name name = true := by rwa [Sighting.name, ← hcopy.name]
    have hy' : v.find? adapter s name = some y :=
      hfind.trans (find?_of_getElem? (v.pairwise_sightings adapter _ _ _) hy hyname)
    obtain rfl : ((v.handOut y).run s).1 = m := by
      rw [← Option.some.injEq, ← get?_of_find? hy']
      exact hm
    exact ⟨(v.isCopy_handOut y s).alike hcopy, y, hy', hy⟩

/-- An object that wraps a map, with a note and a declared member under names of two of its
entries. -/
def crowded : Store :=
  ((((Store.initial #[]).after (Store.wrapAs
    (.map [("Size", .null), ("Rank", .null), ("psbase", .null), (" ", .null)]) ["Box"])).after
    (Store.addCell (.boolean true))).after
    (Store.addToList ⟨0⟩ ⟨.made 0, "SIZE", .initial, some ⟨0⟩, .note ⟨1⟩⟩ true).run).after
    (Store.declare "box" ⟨.made 1, "RANK", .initial, none, .propertySet ["size"]⟩).run

theorem reachable_crowded : crowded.Reachable :=
  ⟨#[], .tail (.tail (.tail (.tail .refl (.wrapAs _ _)) (.addCell _)) (.addToList _ _ _))
    (.declare _ _)⟩

theorem agrees_crowded :
    crowded.Reachable ∧ (ofObject ⟨0⟩).mask = .all ∧
    (((ofObject ⟨0⟩).members .bag).run crowded).1.map (·.name) =
      ["PSBase", "PSAdapted", "PSExtended", "PSObject", "PSTypeNames", "SIZE", "RANK",
        "ToString", "Equals"] ∧
    (ofObject ⟨0⟩).Agrees .bag crowded "rank" :=
  ⟨reachable_crowded, rfl, by decide +kernel,
    agrees_of_mask_all .bag reachable_crowded rfl "rank"⟩

end View

end DynamicMembers
