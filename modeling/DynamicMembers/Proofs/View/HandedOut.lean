import DynamicMembers.Proofs.Store.Copies
import DynamicMembers.View.HandOut

/-! # What a view hands out

Whatever a view hands out is like the member it has found, and what is not stored
belongs to the owner of the view (`View.isCopy_handOut`). So all that is handed out
for one sighting is alike, whenever it was handed out.
-/
namespace DynamicMembers

/-- The members are the same but for their identity and for where they store what is
their own. -/
def Member.Alike (m other : Member) : Prop := m.IsCopy m.owner other

namespace Member.IsCopy

variable {owner : Option ObjectId} {m first second : Member}

theorem alike (hfirst : m.IsCopy owner first) (hsecond : m.IsCopy owner second) :
    first.Alike second where
  name := hsecond.name.trans hfirst.name.symm
  flags := hsecond.flags.trans hfirst.flags.symm
  form := hsecond.form.trans hfirst.form.symm
  owner := hsecond.owner.trans hfirst.owner.symm

end Member.IsCopy

namespace View

variable {s : Store} {adapter : Adapter} {v : View} {name : String} {x : Sighting}

def ownerFor (v : View) (x : Sighting) : Option ObjectId :=
  match x.origin with
  | .reserved _ | .stored => x.member.owner
  | .declared | .supplied => v.owner?

theorem isCopy_handOut (v : View) (x : Sighting) (s : Store) :
    x.member.IsCopy (v.ownerFor x) ((v.handOut x).run s).1 := by
  unfold handOut ownerFor
  cases x.origin with
  | reserved which => cases which <;> exact ⟨rfl, rfl, rfl, rfl⟩
  | stored => exact ⟨rfl, rfl, rfl, rfl⟩
  | declared => exact Store.isCopy_copyFor v.owner? x.member s
  | supplied => exact Store.isCopy_copyFor v.owner? x.member s

theorem get?_of_find? (h : v.find? adapter s name = some x) :
    ((v.get? adapter name).run s).1 = some ((v.handOut x).run s).1 := by
  show ((v.handOut? (v.find? adapter s name)).run s).1 = _
  rw [h]
  rfl

theorem run_get?_of_find? (h : v.find? adapter s name = some x) {m : Member} {t : Store}
    (hrun : (v.handOut x).run s = (m, t)) : (v.get? adapter name).run s = (some m, t) := by
  have hget : (v.get? adapter name).run s = (v.handOut? (v.find? adapter s name)).run s := rfl
  have hhandOut : (v.handOut? (some x)).run s =
      (some ((v.handOut x).run s).1, ((v.handOut x).run s).2) := rfl
  rw [hget, h, hhandOut, hrun]

theorem get?_of_find?_none (h : v.find? adapter s name = none) :
    ((v.get? adapter name).run s).1 = none := by
  show ((v.handOut? (v.find? adapter s name)).run s).1 = _
  rw [h]
  rfl

theorem isSome_get? (adapter : Adapter) (v : View) (name : String) (s : Store) :
    ((v.get? adapter name).run s).1.isSome = (v.find? adapter s name).isSome := by
  cases h : v.find? adapter s name with
  | none =>
    rw [get?_of_find?_none h]
    rfl
  | some x =>
    rw [get?_of_find? h]
    rfl

theorem handOut_reserved {which : ReservedMember} (h : x.origin = .reserved which) (s : Store) :
    ((v.handOut x).run s).1 = { x.member with id := ((v.handOut x).run s).1.id } := by
  unfold handOut
  rw [h]
  cases which <;> rfl

/-- The members of an enumeration are what is handed out for the sightings, one by one. -/
theorem forall₂_matching {R : Sighting → Member → Prop} (adapter : Adapter) (v : View)
    (hR : ∀ x t, R x ((v.handOut x).run t).1) (pattern : Wildcard) (types : TypeMask)
    (options : MatchOptions) (s : Store) :
    List.Forall₂ R (v.sightings adapter s pattern types options)
      ((v.matching adapter pattern types options).run s).1 :=
  (Store.mapM_forall₂ (P := fun _ => True) (fun x t _ => ⟨hR x t, trivial⟩) _ trivial).1

end View

end DynamicMembers
