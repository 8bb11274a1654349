import DynamicMembers.Proofs.View.Agreement
import DynamicMembers.View.Change

/-! # Reserved names

Nothing under a reserved name can be added to an object or removed from it, and what is
shown under one is a grouping member, whatever an adapter lists. Three things see to
it: changes are refused before anything is done; a look-up of such a name asks no other
layer; and an enumeration has the grouping members first, so that their names are
claimed when the other layers come.
-/
namespace DynamicMembers

/-- The member is a grouping member of the object. One of them is made anew every time, so this
leaves its identity open. -/
def Member.IsGrouping (o : ObjectId) (which : ReservedMember) (m : Member) : Prop :=
  m = { Member.reserved o which with id := m.id }

/-! ## Changes -/

namespace View

variable {adapter : Adapter} {s : Store} {v : View} {name : String}

theorem add_of_refusal {m : Member} {vouched : Bool} {refusal : MemberError}
    (h : v.addRefusal? s m vouched = some refusal) :
    (v.add m vouched).run.run s = (.error refusal, s) := by
  rw [add, Store.run_read_then, h]
  rfl

theorem remove_of_refusal {refusal : MemberError} (h : v.removeRefusal? s name = some refusal) :
    (v.remove name).run.run s = (.error refusal, s) := by
  rw [remove, Store.run_read_then, h]
  rfl

end View

/-! ## Enumerations -/

namespace Layer

theorem pairwise_reserved (o : ObjectId) :
    (reserved o).members.Pairwise fun x y => sameName x.name y.name = false := by
  rw [members_reserved, List.pairwise_map]
  exact (by decide : ReservedMember.all.Pairwise fun a b => sameName a.name b.name = false)

/-- The grouping members are the first of an enumeration and the only ones with their names. -/
theorem unionOf_reserved_cons (o : ObjectId) (layers : List Layer) :
    ∃ rest, unionOf (reserved o :: layers) = (reserved o).members ++ rest ∧
      ∀ x ∈ rest, isReservedName x.name = false := by
  have hkeys : ∀ which ∈ ReservedMember.all,
      foldCase which.name ∈ (reserved o).members.map (foldCase ∘ Sighting.name) ++ [] := by
    intro which hwhich
    rw [List.append_nil, members_reserved, List.map_map]
    exact List.mem_map.mpr ⟨which, hwhich, rfl⟩
  have hunion := @firstByName_append _ Sighting.name [] _ (by simp) (pairwise_reserved o)
    (layers.flatMap (·.members))
  refine ⟨_, hunion, fun x hx => ?_⟩
  rw [Bool.eq_false_iff]
  intro hreserved
  obtain ⟨which, hwhich, hsame⟩ := List.any_eq_true.mp hreserved
  refine foldCase_notMem_of_mem_firstByName hx ?_
  rw [← foldCase_eq_iff.mpr hsame]
  exact hkeys which hwhich

end Layer

namespace View

variable {adapter : Adapter} {s : Store} {o : ObjectId} {mask : TypeMask} {name : String}

/-! ## The views of an object -/

theorem find?_reserved (h : isReservedName name = true) :
    ((ofObject o).withMask mask).find? adapter s name =
      ((Layer.reserved o).find? name).filter fun x => mask.admits x.member.type := by
  unfold find?
  rw [h]
  rfl

theorem exists_groupings (adapter : Adapter) (s : Store) (o : ObjectId) :
    ∃ groupings rest, (((ofObject o).members adapter).run s).1 = groupings ++ rest ∧
      List.Forall₂ (Member.IsGrouping o) ReservedMember.all groupings ∧
      ∀ m ∈ rest, isReservedName m.name = false := by
  have hmembers : List.Forall₂ (fun x m => m.name = x.name ∧
        ∀ which, x.origin = .reserved which → m = { x.member with id := m.id })
      ((ofObject o).allSightings adapter s) (((ofObject o).members adapter).run s).1 :=
    forall₂_matching adapter (ofObject o) (fun x t =>
      ⟨((ofObject o).isCopy_handOut x t).name, fun _ horigin => handOut_reserved horigin t⟩)
      .everything .all .everything s
  obtain ⟨rest, hunion, hrest⟩ := Layer.unionOf_reserved_cons o
    (((ofObject o).storedLayer? s).toList ++ (ofObject o).sourceLayers adapter s)
  have hsightings : (ofObject o).allSightings adapter s = (Layer.reserved o).members ++ rest :=
    (allSightings_of_mask_all adapter rfl).trans hunion
  rw [hsightings] at hmembers
  have hfirst := (List.forall₂_take_append _ _ _ hmembers.flip).flip
  have hlast := (List.forall₂_drop_append _ _ _ hmembers.flip).flip
  refine ⟨_, _, (List.take_append_drop (Layer.reserved o).members.length _).symm, ?_, ?_⟩
  · rw [Layer.members_reserved, List.forall₂_map_left_iff] at hfirst
    exact hfirst.imp fun which m h => h.2 which rfl
  · intro m hm
    obtain ⟨x, hx, hname, -⟩ := exists_mem_of_forall₂ hlast hm
    rw [hname]
    exact hrest x hx

/-- What the views of an object do with a name, given that it is reserved. -/
structure Protects (adapter : Adapter) (s : Store) (o : ObjectId) (mask : TypeMask)
    (name : String) : Prop where
  /-- Nothing of that name is added, whether the caller vouches for it or not. -/
  add_refused : ∀ (m : Member) (vouched : Bool), sameName m.name name = true →
    (((ofObject o).withMask mask).add m vouched).run.run s = (.error (.reservedName m.name), s)
  remove_refused :
    (((ofObject o).withMask mask).remove name).run.run s = (.error (.reservedName name), s)
  /-- The grouping member of that name is found if its type is admitted, and nothing if not. -/
  found : ∃ which, ReservedMember.ofName? name = some which ∧
    if mask.admits (Member.reserved o which).type then
      ∃ m, ((((ofObject o).withMask mask).get? adapter name).run s).1 = some m ∧
        m.IsGrouping o which
    else ((((ofObject o).withMask mask).get? adapter name).run s).1 = none
  /-- The grouping members come first, in their order, and no other member has such a name. -/
  listed : ∃ groupings rest,
    (((ofObject o).members adapter).run s).1 = groupings ++ rest ∧
      List.Forall₂ (Member.IsGrouping o) ReservedMember.all groupings ∧
      ∀ m ∈ rest, isReservedName m.name = false
  /-- No list holds a member of that name, and none is declared. -/
  unstored : (∀ l, (s.list l).find? name = none) ∧
    ∀ entry ∈ s.types, entry.2.find? name = none

theorem get?_reserved (h : isReservedName name = true) :
    ∃ which, ReservedMember.ofName? name = some which ∧
      if mask.admits (Member.reserved o which).type then
        ∃ m, ((((ofObject o).withMask mask).get? adapter name).run s).1 = some m ∧
          m.IsGrouping o which
      else ((((ofObject o).withMask mask).get? adapter name).run s).1 = none := by
  rw [isReservedName_eq_isSome] at h
  obtain ⟨which, hwhich⟩ := Option.isSome_iff_exists.mp h
  rw [← isReservedName_eq_isSome] at h
  have hfind : ((ofObject o).withMask mask).find? adapter s name =
      Option.filter (fun x => mask.admits x.member.type)
        (some ⟨.reserved o which, .reserved which⟩) := by
    rw [find?_reserved h]
    show ((ReservedMember.ofName? name).map _).filter _ = _
    rw [hwhich]
    rfl
  refine ⟨which, hwhich, ?_⟩
  split
  · rename_i hadmits
    have hfound := hfind.trans (Option.filter_some_pos hadmits)
    exact ⟨_, get?_of_find? hfound, handOut_reserved rfl s⟩
  · rename_i hadmits
    exact get?_of_find?_none (hfind.trans (Option.filter_some_neg (by simpa using hadmits)))

/-- A list that is well-named has nothing under a reserved name. -/
theorem find?_eq_none_of_reserved {l : MemberList} (hl : l.WellNamed)
    (h : isReservedName name = true) : l.find? name = none := by
  rw [hl.find?_eq, List.find?_eq_none]
  intro m hm hsame
  obtain ⟨entry, hentry, rfl⟩ := List.mem_map.mp hm
  rw [← isReservedName_congr hsame, hl.unreserved entry hentry] at h
  cases h

theorem protects_of_reserved (hs : s.Reachable) (adapter : Adapter) (o : ObjectId)
    (mask : TypeMask) (h : isReservedName name = true) : Protects adapter s o mask name where
  add_refused := by
    intro m vouched hsame
    have hname : isReservedName m.name = true := (isReservedName_congr hsame).trans h
    exact add_of_refusal (by simp [addRefusal?, isReadOnly, ofObject, withMask, hname])
  remove_refused := by
    exact remove_of_refusal (by simp [removeRefusal?, isReadOnly, ofObject, withMask, h])
  found := get?_reserved h
  listed := exists_groupings adapter s o
  unstored := by
    obtain ⟨hlists, htypes⟩ := hs.wellNamed
    exact ⟨fun l => find?_eq_none_of_reserved (hlists l) h,
      fun entry hentry => find?_eq_none_of_reserved (htypes entry hentry) h⟩

/-- The bag adapter lists a row under this name. -/
theorem protects_crowded :
    crowded.Reachable ∧ isReservedName "psbase" = true ∧
    "psbase" ∈ (Bag.rows (crowded.baseValue ⟨0⟩)).map (·.name) ∧
    Protects .bag crowded ⟨0⟩ .properties "psbase" :=
  ⟨reachable_crowded, by decide, by decide +kernel,
    protects_of_reserved reachable_crowded .bag ⟨0⟩ .properties (by decide)⟩

end View

end DynamicMembers
