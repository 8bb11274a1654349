import DynamicMembers.Proofs.View.ReservedNames
import DynamicMembers.Proofs.View.Sources

/-! # Searching by a predicate

Behind the grouping members of an object come the levels of its view: the list, the
declarations and the rows of the adapter, but for what stands under reserved names. In the
view of all types, look-up, search and enumeration go through the same members in the
same order (`Store.inOrder`) and differ only in where they stop.

So a search that does not distinguish spellings finds the first member of the
enumeration that satisfies the predicate (`View.searchesInOrder`). A search that does may
find a member behind another one of the same name, if and only if it rejects the
spelling of that one (`View.shadowsExactly`). In a view that is limited to types of
members, a search asks each level for one member only, and misses what stands behind a
member of another type (`View.missesExactly`).
-/
namespace DynamicMembers

/-- Two searches of one list stop at the same element if either would stop where the other does. -/
theorem eq_of_find?_of_find? {α : Type} {as : List α} {p q : α → Bool} {a b : α}
    (ha : as.find? p = some a) (hb : as.find? q = some b) (hqa : q a = true)
    (hpb : p b = true) : a = b := by
  induction as with
  | nil => cases ha
  | cons c as ih =>
    cases hp : p c with
    | true =>
      obtain rfl : c = a := by simpa [hp] using ha
      simpa [hqa] using hb
    | false =>
      cases hq : q c with
      | true =>
        obtain rfl : c = b := by simpa [hq] using hb
        cases hp.symm.trans hpb
      | false => exact ih (by simpa [hp] using ha) (by simpa [hq] using hb)

theorem findSome?_congr {α β : Type} {as : List α} {f g : α → Option β}
    (h : ∀ a ∈ as, f a = g a) : as.findSome? f = as.findSome? g := by
  induction as with
  | nil => rfl
  | cons a as ih =>
    rw [List.findSome?_cons, List.findSome?_cons, h a List.mem_cons_self,
      ih fun b hb => h b (List.mem_cons_of_mem a hb)]

/-! ## Levels -/

namespace Layer

def unreserved (layer : Layer) : List Sighting :=
  layer.members.filter fun x => !isReservedName x.name

theorem not_reserved_of_mem_unreserved {layer : Layer} {x : Sighting}
    (h : x ∈ layer.unreserved) : isReservedName x.name = false := by
  simpa using (List.mem_filter.mp h).2

theorem unreserved_stored {l : MemberList} (hl : l.WellNamed) :
    (stored l).unreserved = (stored l).members := by
  refine List.filter_eq_self.mpr fun x hx => ?_
  obtain ⟨m, hm, rfl⟩ := List.mem_map.mp hx
  have hname : isReservedName m.name = false := hl.unreserved_of_mem hm
  show (!isReservedName m.name) = true
  rw [hname, Bool.not_false]

theorem find?_unreserved (layer : Layer) (p : String → Bool) :
    layer.unreserved.find? (fun x => p x.name) =
      layer.members.find? fun x => p x.name && !isReservedName x.name := by
  rw [unreserved, List.find?_filter]
  refine List.find?_congr fun x _ => ?_
  rw [Bool.and_comm]
  simp

end Layer

namespace View

variable {adapter : Adapter} {s : Store} {v : View} {o : ObjectId} {p : String → Bool}
  {name : String} {x : Sighting}

def openLayers (adapter : Adapter) (s : Store) (v : View) : List Layer :=
  (v.storedLayer? s).toList ++ v.sourceLayers adapter s

def levels (adapter : Adapter) (s : Store) (v : View) : List (List Sighting) :=
  (v.openLayers adapter s).map (·.unreserved)

theorem lawful_openLayers (adapter : Adapter) (hs : s.WellNamed) (v : View) :
    ∀ layer ∈ v.openLayers adapter s, layer.Lawful := by
  intro layer hlayer
  refine v.lawful_layers adapter hs layer ?_
  rw [layers, List.append_assoc]
  exact List.mem_append_right _ hlayer

theorem not_reserved_of_mem_levels {level : List Sighting} (hlevel : level ∈ v.levels adapter s)
    (hx : x ∈ level) : isReservedName x.name = false := by
  obtain ⟨layer, -, rfl⟩ := List.mem_map.mp hlevel
  exact Layer.not_reserved_of_mem_unreserved hx

/-- A search goes through the levels and asks each of them for one member. -/
theorem firstSuch?_eq (hs : s.WellNamed) (v : View) (p : String → Bool) :
    v.firstSuch? adapter s p =
      (v.reservedLayer?.bind fun layer =>
        layer.members.find? fun x => p x.name && v.admits x.member).or
      ((v.levels adapter s).findSome? fun level =>
        (level.find? fun x => p x.name).filter fun x => v.admits x.member) := by
  have hlist : ((v.storedLayer? s).bind fun layer =>
      (layer.members.find? fun x => p x.name).filter fun x => v.admits x.member) =
      (v.storedLayer? s).toList.findSome? fun layer =>
        (layer.unreserved.find? fun x => p x.name).filter fun x => v.admits x.member := by
    unfold storedLayer?
    cases v.list? s with
    | none => rfl
    | some l =>
      rw [Option.map_some, Option.bind_some, ← Layer.unreserved_stored (hs.lists l)]
      simp
  unfold firstSuch? levels openLayers
  dsimp only
  rw [hlist, Option.or_assoc, List.findSome?_map, List.findSome?_append]
  simp only [Function.comp_def, Layer.find?_unreserved]

theorem find?_eq (hs : s.WellNamed) (hname : isReservedName name = false) :
    v.find? adapter s name = (v.levels adapter s).findSome? fun level =>
      (level.find? fun x => sameName x.name name).filter fun x => v.admits x.member := by
  have hlevels : ∀ layer ∈ v.openLayers adapter s,
      layer.find? name = layer.unreserved.find? fun x => sameName x.name name := by
    intro layer hlayer
    rw [lawful_openLayers adapter hs v layer hlayer name, layer.find?_unreserved (sameName · name)]
    refine List.find?_congr fun x _ => ?_
    cases hsame : sameName x.name name with
    | true => simp [isReservedName_congr hsame, hname]
    | false => rfl
  unfold find?
  rw [hname, Bool.and_false]
  simp only [Bool.false_eq_true, if_false]
  rw [levels, List.findSome?_map]
  refine findSome?_congr fun layer hlayer => ?_
  rw [hlevels layer hlayer]
  rfl

variable {m : Member}

theorem first?_eq_none_iff :
    ((v.first? adapter p).run s).1 = none ↔ v.firstSuch? adapter s p = none := by
  show ((v.handOut? (v.firstSuch? adapter s p)).run s).1 = none ↔ _
  cases v.firstSuch? adapter s p with
  | none => exact iff_of_true rfl rfl
  | some x => exact iff_of_false nofun nofun

theorem exists_of_first? (h : ((v.first? adapter p).run s).1 = some m) :
    ∃ x, v.firstSuch? adapter s p = some x ∧ ((v.handOut x).run s).1 = m := by
  obtain ⟨x, hx, hrun⟩ := run_handOut?_eq_some (v.firstSuch? adapter s p)
    (t := ((v.first? adapter p).run s).2) (Prod.ext h rfl)
  exact ⟨x, hx, congrArg Prod.fst hrun⟩

theorem name_handOut (v : View) (x : Sighting) (s : Store) :
    ((v.handOut x).run s).1.name = x.name :=
  (v.isCopy_handOut x s).name

end View

/-! ## The view of all types -/

/-- Whatever an object has, in order of precedence: the grouping members, then level by level. -/
def Store.inOrder (adapter : Adapter) (s : Store) (o : ObjectId) : List Sighting :=
  (Layer.reserved o).members ++ ((View.ofObject o).levels adapter s).flatten

def Store.Shadows (adapter : Adapter) (s : Store) (o : ObjectId) (y x : Sighting) : Prop :=
  sameName y.name x.name = true ∧
    ∃ before after, s.inOrder adapter o = before ++ x :: after ∧ y ∈ before

namespace View

variable {adapter : Adapter} {s : Store} {o : ObjectId} {p : String → Bool} {name : String}
  {x y : Sighting}

theorem findSome?_filter_admits {v : View} (hv : v.mask = .all) (p : Sighting → Bool)
    (levels : List (List Sighting)) :
    (levels.findSome? fun level => (level.find? p).filter fun x => v.admits x.member) =
      levels.flatten.find? p := by
  rw [List.find?_flatten]
  refine findSome?_congr fun level _ => ?_
  cases level.find? p <;> simp [admits_of_mask_all hv]

theorem firstSuch?_ofObject (hs : s.WellNamed) (p : String → Bool) :
    (ofObject o).firstSuch? adapter s p = (s.inOrder adapter o).find? fun x => p x.name := by
  have hreserved : ((ofObject o).reservedLayer?.bind fun layer =>
      layer.members.find? fun x => p x.name && (ofObject o).admits x.member) =
      (Layer.reserved o).members.find? fun x => p x.name := by
    simp only [admits_of_mask_all (v := ofObject o) rfl, Bool.and_true]
    rfl
  rw [firstSuch?_eq hs, hreserved, findSome?_filter_admits rfl, Store.inOrder,
    List.find?_append]

/-- What satisfies a predicate that does not distinguish spellings is not under a reserved
name, unless a grouping member satisfies it. -/
theorem not_reserved_of_caseless (hp : Caseless p)
    (hnone : ((Layer.reserved o).members.find? fun x => p x.name) = none)
    (hname : p name = true) : isReservedName name = false := by
  rw [Bool.eq_false_iff]
  intro hreserved
  rw [← Layer.isSome_find?_reserved o, Option.isSome_iff_exists] at hreserved
  obtain ⟨x, hx⟩ := hreserved
  rw [Layer.lawful_reserved o name] at hx
  have hsame : sameName x.name name = true := by simpa using List.find?_some hx
  have hpx := List.find?_eq_none.mp hnone x (List.mem_of_find?_eq_some hx)
  exact hpx ((hp _ _ hsame).trans hname)

/-- For a predicate that does not distinguish spellings, nothing is missing from an
enumeration. -/
theorem find?_allSightings_ofObject (hp : Caseless p) :
    ((ofObject o).allSightings adapter s).find? (fun x => p x.name) =
      (s.inOrder adapter o).find? fun x => p x.name := by
  have hlayers : (ofObject o).layers adapter s =
      Layer.reserved o :: (ofObject o).openLayers adapter s := rfl
  have hlevels : ((ofObject o).levels adapter s).flatten =
      (((ofObject o).openLayers adapter s).flatMap (·.members)).filter
        fun x => !isReservedName x.name := by
    rw [levels, ← List.flatMap_def, List.filter_flatMap]
    rfl
  rw [allSightings_of_mask_all adapter rfl, union, Layer.unionOf,
    hp.find?_firstByName (by simp), hlayers, List.flatMap_cons, Store.inOrder, List.find?_append,
    List.find?_append, hlevels, List.find?_filter]
  cases hfirst : (Layer.reserved o).members.find? fun x => p x.name with
  | some x => rfl
  | none =>
    rw [Option.none_or, Option.none_or]
    refine List.find?_congr fun x _ => ?_
    cases hx : p x.name with
    | true => simp [not_reserved_of_caseless hp hfirst hx]
    | false => simp

theorem find?_ofObject (hs : s.WellNamed) (name : String) :
    (ofObject o).find? adapter s name =
      (s.inOrder adapter o).find? fun x => sameName x.name name :=
  (find?_eq_find?_allSightings adapter hs rfl name).trans
    (find?_allSightings_ofObject (caseless_sameName name))

/-- What a search finds is the first member of the enumeration that satisfies the predicate. -/
structure SearchesInOrder (adapter : Adapter) (s : Store) (o : ObjectId)
    (p : String → Bool) : Prop where
  none_iff : (((ofObject o).first? adapter p).run s).1 = none ↔
    ∀ m ∈ (((ofObject o).members adapter).run s).1, p m.name = false
  /-- The member that is found and the one that is listed show the same sighting. -/
  first : ∀ m, (((ofObject o).first? adapter p).run s).1 = some m →
    ∃ (i : Nat) (x : Sighting) (other : Member), (ofObject o).firstSuch? adapter s p = some x ∧
      ((ofObject o).allSightings adapter s)[i]? = some x ∧
      (((ofObject o).members adapter).run s).1[i]? = some other ∧ p other.name = true ∧
      (∀ (j : Nat) (earlier : Member), j < i →
        (((ofObject o).members adapter).run s).1[j]? = some earlier → p earlier.name = false) ∧
      m.Alike other

/-- A search for a predicate that does not distinguish spellings agrees with enumeration. -/
theorem searchesInOrder (hs : s.Reachable) (adapter : Adapter) (o : ObjectId)
    (hp : Caseless p) : SearchesInOrder adapter s o p := by
  have hfirst : (ofObject o).firstSuch? adapter s p =
      ((ofObject o).allSightings adapter s).find? fun x => p x.name :=
    (firstSuch?_ofObject hs.wellNamed p).trans (find?_allSightings_ofObject hp).symm
  have hcopies : List.Forall₂ (fun x m => x.member.IsCopy ((ofObject o).ownerFor x) m)
      ((ofObject o).allSightings adapter s) (((ofObject o).members adapter).run s).1 :=
    forall₂_matching adapter (ofObject o) (ofObject o).isCopy_handOut .everything .all
      .everything s
  constructor
  · rw [first?_eq_none_iff, hfirst, List.find?_eq_none]
    constructor
    · intro hall m hm
      obtain ⟨x, hx, hcopy⟩ := exists_mem_of_forall₂ hcopies hm
      have hname : m.name = x.name := hcopy.name
      simpa [hname] using hall x hx
    · intro hall x hx
      obtain ⟨m, hm, hcopy⟩ := exists_mem_of_forall₂ hcopies.flip hx
      have hname : m.name = x.name := hcopy.name
      simpa [hname] using hall m hm
  · intro m hm
    obtain ⟨x, hx, rfl⟩ := exists_of_first? hm
    rw [hfirst] at hx
    obtain ⟨hpx, i, hi, hxi, hbefore⟩ := List.find?_eq_some_iff_getElem.mp hx
    have hxi : ((ofObject o).allSightings adapter s)[i]? = some x :=
      List.getElem?_eq_some_iff.mpr ⟨hi, hxi⟩
    obtain ⟨other, hother, hcopy⟩ := exists_getElem?_of_forall₂ hcopies.flip hxi
    have hname : other.name = x.name := hcopy.name
    refine ⟨i, x, other, hfirst.trans hx, hxi, hother, hname ▸ hpx, ?_,
      ((ofObject o).isCopy_handOut x s).alike hcopy⟩
    intro j earlier hj hearlier
    obtain ⟨y, hy, hcopy⟩ := exists_getElem?_of_forall₂ hcopies hearlier
    obtain ⟨hj', rfl⟩ := List.getElem?_eq_some_iff.mp hy
    have hname : earlier.name = Sighting.name _ := hcopy.name
    simpa [hname] using hbefore j hj

/-- The search finds the note, and passes over the entry of the map behind it. -/
theorem searchesInOrder_crowded :
    crowded.Reachable ∧ Caseless (sameName · "size") ∧
    SearchesInOrder .bag crowded ⟨0⟩ (sameName · "size") ∧
    ((((ofObject ⟨0⟩).first? .bag (sameName · "size")).run crowded).1.map (·.name)) =
      some "SIZE" :=
  ⟨reachable_crowded, caseless_sameName "size",
    searchesInOrder reachable_crowded .bag ⟨0⟩ (caseless_sameName "size"), by decide +kernel⟩

/-! ## Spellings -/

/-- What is found is what a look-up of its name finds if and only if the predicate accepts
the spelling that the look-up finds. If it does not, something stands before what is found. -/
def ShadowsExactly (adapter : Adapter) (s : Store) (o : ObjectId) (p : String → Bool) : Prop :=
  ∀ m, (((ofObject o).first? adapter p).run s).1 = some m →
    ∃ x y shown, (ofObject o).firstSuch? adapter s p = some x ∧
      (ofObject o).find? adapter s m.name = some y ∧
      (((ofObject o).get? adapter m.name).run s).1 = some shown ∧
      if p shown.name then y = x ∧ m.Alike shown else y ≠ x ∧ s.Shadows adapter o y x

theorem shadowsExactly (hs : s.Reachable) (adapter : Adapter) (o : ObjectId)
    (p : String → Bool) : ShadowsExactly adapter s o p := by
  intro m hm
  obtain ⟨x, hx, rfl⟩ := exists_of_first? hm
  have hsuch := hx
  rw [firstSuch?_ofObject hs.wellNamed] at hsuch
  obtain ⟨hpx, before, after, horder, hbefore⟩ := List.find?_eq_some_iff_append.mp hsuch
  have hisSome : ((s.inOrder adapter o).find? fun y => sameName y.name x.name).isSome :=
    List.find?_isSome.mpr ⟨x, List.mem_of_find?_eq_some hsuch, sameName_refl _⟩
  obtain ⟨y, hy⟩ := Option.isSome_iff_exists.mp hisSome
  have hsame : sameName y.name x.name = true := by simpa using List.find?_some hy
  have hfind : (ofObject o).find? adapter s x.name = some y :=
    (find?_ofObject hs.wellNamed x.name).trans hy
  rw [name_handOut]
  refine ⟨x, y, _, hx, hfind, get?_of_find? hfind, ?_⟩
  rw [name_handOut]
  split
  next hpy =>
    obtain rfl : y = x := eq_of_find?_of_find? hy hsuch hpy (sameName_refl _)
    exact ⟨rfl, ((ofObject o).isCopy_handOut y s).alike ((ofObject o).isCopy_handOut y s)⟩
  next hpy =>
    refine ⟨fun heq => hpy (heq ▸ hpx), hsame, before, after, horder, ?_⟩
    -- A look-up goes no further than to the member of the very name.
    rw [horder, List.find?_append] at hy
    rcases Option.or_eq_some_iff.mp hy with hy | ⟨-, hy⟩
    · exact List.mem_of_find?_eq_some hy
    · obtain rfl : x = y := by simpa using hy
      exact absurd hpx hpy

/-- A search that distinguishes spellings finds the note, and the note is what has the name. -/
theorem shadowsExactly_crowded :
    crowded.Reachable ∧ ShadowsExactly .bag crowded ⟨0⟩ (· == "SIZE") ∧
    ((((ofObject ⟨0⟩).first? .bag (· == "SIZE")).run crowded).1.map (·.name)) = some "SIZE" :=
  ⟨reachable_crowded, shadowsExactly reachable_crowded .bag ⟨0⟩ (· == "SIZE"),
    by decide +kernel⟩

/-- A search for the spelling of the entry of the map finds that entry, though what a look-up of
its name finds is the note. -/
theorem shadowed_size :
    crowded.Reachable ∧
    (((ofObject ⟨0⟩).first? .bag (· == "Size")).run crowded).1 =
      some ⟨.made 0, "Size", .initial, some ⟨0⟩,
        .adapted ⟨.model, ⟨0⟩, .bag (.entry "Size")⟩⟩ ∧
    (((ofObject ⟨0⟩).get? .bag "Size").run crowded).1 =
      some ⟨.made 0, "SIZE", .initial, some ⟨0⟩, .note ⟨1⟩⟩ :=
  ⟨reachable_crowded, by decide +kernel, by decide +kernel⟩

/-! ## Types of members -/

/-- The first member of the level that satisfies the predicate is of a type that is not
admitted. -/
def Blocks (v : View) (p : String → Bool) (level : List Sighting) : Prop :=
  ∃ x, level.find? (fun x => p x.name) = some x ∧ v.admits x.member = false

/-- The first member of its name in the level is this one, and its type is admitted. -/
def Offers (v : View) (level : List Sighting) (x : Sighting) : Prop :=
  level.find? (fun y => sameName y.name x.name) = some x ∧ v.admits x.member = true

/-- No grouping member that satisfies the predicate is of an admitted type. -/
def PassesGroupings (v : View) (p : String → Bool) (o : ObjectId) : Prop :=
  ∀ x ∈ (Layer.reserved o).members, p x.name = true → v.admits x.member = false

section

variable {mask : TypeMask}

/-- A search finds nothing if every level that has a candidate blocks it. -/
theorem firstSuch?_eq_none_iff (hs : s.WellNamed) :
    ((ofObject o).withMask mask).firstSuch? adapter s p = none ↔
      ((ofObject o).withMask mask).PassesGroupings p o ∧
      ∀ level ∈ ((ofObject o).withMask mask).levels adapter s,
        (∃ x ∈ level, p x.name = true) → ((ofObject o).withMask mask).Blocks p level := by
  rw [firstSuch?_eq hs, Option.or_eq_none_iff, List.findSome?_eq_none_iff]
  refine and_congr ?_ (forall₂_congr fun level _ => ?_)
  · exact List.find?_eq_none.trans (forall₂_congr fun x _ => by simp)
  · rw [← List.find?_isSome]
    cases hfirst : level.find? fun x => p x.name with
    | none => simp
    | some x => simp [Blocks, hfirst, Option.filter_eq_none_iff]

/-- A look-up of a reserved name finds a grouping member of an admitted type. -/
theorem isSome_find?_iff_of_reserved (hname : isReservedName name = true) :
    (((ofObject o).withMask mask).find? adapter s name).isSome = true ↔
      ∃ x ∈ (Layer.reserved o).members, sameName x.name name = true ∧
        ((ofObject o).withMask mask).admits x.member = true := by
  rw [find?_reserved hname, Layer.lawful_reserved o name, Option.isSome_iff_exists]
  refine exists_congr fun x => ?_
  rw [Option.filter_eq_some_iff]
  constructor
  · intro ⟨hx, hadmits⟩
    exact ⟨List.mem_of_find?_eq_some hx, by simpa using List.find?_some hx, hadmits⟩
  · intro ⟨hx, hsame, hadmits⟩
    obtain ⟨i, hi⟩ := List.mem_iff_getElem?.mp hx
    exact ⟨find?_of_getElem? (Layer.pairwise_reserved o) hi hsame, hadmits⟩

/-- A look-up of any other name finds something if a level offers a member of that name. -/
theorem isSome_find?_iff_of_not_reserved {v : View} (hs : s.WellNamed)
    (hname : isReservedName name = false) :
    (v.find? adapter s name).isSome = true ↔
      ∃ level ∈ v.levels adapter s, ∃ x, sameName x.name name = true ∧ v.Offers level x := by
  have hoffers {level : List Sighting} {x : Sighting} (hsame : sameName x.name name = true) :
      (level.find? fun y => sameName y.name x.name) = level.find? fun y => sameName y.name name :=
    List.find?_congr fun y _ => sameName_congr_right hsame y.name
  rw [find?_eq hs hname, List.findSome?_isSome_iff]
  refine exists_congr fun level => and_congr_right fun _ => ?_
  rw [Option.isSome_iff_exists]
  refine exists_congr fun x => ?_
  rw [Option.filter_eq_some_iff]
  constructor
  · intro ⟨hx, hadmits⟩
    have hsame : sameName x.name name = true := by simpa using List.find?_some hx
    exact ⟨hsame, (hoffers hsame).trans hx, hadmits⟩
  · intro ⟨hsame, hx, hadmits⟩
    exact ⟨(hoffers hsame).symm.trans hx, hadmits⟩

/-- A look-up finds something under a name that satisfies the predicate if a grouping member
does or a level offers it. -/
theorem exists_get?_iff (hs : s.WellNamed) (hp : Caseless p) :
    (∃ name, p name = true ∧
      ((((ofObject o).withMask mask).get? adapter name).run s).1.isSome = true) ↔
      ¬ ((ofObject o).withMask mask).PassesGroupings p o ∨
      ∃ level ∈ ((ofObject o).withMask mask).levels adapter s,
        ∃ x, p x.name = true ∧ ((ofObject o).withMask mask).Offers level x := by
  simp only [isSome_get?]
  constructor
  · intro ⟨name, hname, hfound⟩
    cases hreserved : isReservedName name with
    | true =>
      obtain ⟨x, hx, hsame, hadmits⟩ := (isSome_find?_iff_of_reserved hreserved).mp hfound
      refine .inl fun hpasses => ?_
      cases (hpasses x hx ((hp _ _ hsame).trans hname)).symm.trans hadmits
    | false =>
      obtain ⟨level, hlevel, x, hsame, hoffers⟩ :=
        (isSome_find?_iff_of_not_reserved hs hreserved).mp hfound
      exact .inr ⟨level, hlevel, x, (hp _ _ hsame).trans hname, hoffers⟩
  · rintro (hgrouping | ⟨level, hlevel, x, hpx, hoffers⟩)
    · simp only [PassesGroupings, not_forall, Bool.not_eq_false] at hgrouping
      obtain ⟨x, hx, hpx, hadmits⟩ := hgrouping
      have hreserved : isReservedName x.name = true := by
        rw [← Layer.isSome_find?_reserved o, Layer.lawful_reserved o, List.find?_isSome]
        exact ⟨x, hx, sameName_refl _⟩
      exact ⟨x.name, hpx,
        (isSome_find?_iff_of_reserved hreserved).mpr ⟨x, hx, sameName_refl _, hadmits⟩⟩
    · have hopen := not_reserved_of_mem_levels hlevel (List.mem_of_find?_eq_some hoffers.1)
      exact ⟨x.name, hpx, (isSome_find?_iff_of_not_reserved hs hopen).mpr
        ⟨level, hlevel, x, sameName_refl _, hoffers⟩⟩

end

/-- What a search in a limited view finds, and when it misses what look-ups find. -/
structure MissesExactly (adapter : Adapter) (s : Store) (o : ObjectId) (mask : TypeMask)
    (p : String → Bool) : Prop where
  found : ∀ m, ((((ofObject o).withMask mask).first? adapter p).run s).1 = some m →
    mask.admits m.type = true ∧ p m.name = true
  missed_iff :
    ((∃ name, p name = true ∧
        ((((ofObject o).withMask mask).get? adapter name).run s).1.isSome = true) ∧
      ((((ofObject o).withMask mask).first? adapter p).run s).1 = none) ↔
    ((ofObject o).withMask mask).PassesGroupings p o ∧
    (∃ level ∈ ((ofObject o).withMask mask).levels adapter s,
      ∃ x, p x.name = true ∧ ((ofObject o).withMask mask).Offers level x) ∧
    ∀ level ∈ ((ofObject o).withMask mask).levels adapter s,
      (∃ x ∈ level, p x.name = true) → ((ofObject o).withMask mask).Blocks p level

theorem missesExactly (hs : s.Reachable) (adapter : Adapter) (o : ObjectId) (mask : TypeMask)
    (hp : Caseless p) : MissesExactly adapter s o mask p where
  found := by
    intro m hm
    obtain ⟨x, hx, rfl⟩ := exists_of_first? hm
    rw [((ofObject o).withMask mask).isCopy_handOut x s |>.type, name_handOut]
    rw [firstSuch?_eq hs.wellNamed] at hx
    rcases Option.or_eq_some_iff.mp hx with hx | ⟨-, hx⟩
    · obtain ⟨layer, -, hx⟩ := Option.bind_eq_some_iff.mp hx
      have hboth := List.find?_some hx
      exact (Bool.and_eq_true_iff.mp hboth).symm
    · obtain ⟨level, -, hx⟩ := List.exists_of_findSome?_eq_some hx
      obtain ⟨hx, hadmits⟩ := Option.filter_eq_some_iff.mp hx
      exact ⟨hadmits, by simpa using List.find?_some hx⟩
  missed_iff := by
    rw [exists_get?_iff hs.wellNamed hp, first?_eq_none_iff, firstSuch?_eq_none_iff hs.wellNamed]
    constructor
    · intro ⟨hoffered, hpasses, hblocks⟩
      exact ⟨hpasses, hoffered.resolve_left (not_not_intro hpasses), hblocks⟩
    · intro ⟨hpasses, hoffered, hblocks⟩
      exact ⟨.inr hoffered, hpasses, hblocks⟩

/-- The view of the methods of an object, and the predicate that every name satisfies. -/
theorem missesExactly_methods :
    crowded.Reachable ∧ Caseless (fun _ => true) ∧
    MissesExactly .bag crowded ⟨0⟩ .methods (fun _ => true) ∧
    ((ofObject ⟨0⟩).levels .bag crowded).map (·.map (·.name)) =
      [["SIZE"], ["RANK"], ["Size", "Rank", "ToString", "Equals"]] :=
  ⟨reachable_crowded, fun _ _ _ => rfl,
    missesExactly reachable_crowded .bag ⟨0⟩ .methods fun _ _ _ => rfl, by decide +kernel⟩

/-- In the view of the methods of an object that wraps a map, a look-up finds a method, and a
search that accepts every name finds nothing. -/
theorem missed_toString :
    crowded.Reachable ∧ Caseless (fun _ => true) ∧
    ((((ofObject ⟨0⟩).withMask .methods).get? .bag "ToString").run crowded).1.map (·.name) =
      some "ToString" ∧
    ((((ofObject ⟨0⟩).withMask .methods).first? .bag fun _ => true).run crowded).1 = none :=
  ⟨reachable_crowded, fun _ _ _ => rfl, by decide +kernel, by decide +kernel⟩

end View

end DynamicMembers
