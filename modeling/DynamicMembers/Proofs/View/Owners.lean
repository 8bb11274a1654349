import DynamicMembers.Proofs.World.Calls

/-! # Whose a member is

What comes from an object is what its views hand out, and what the views of member sets
hand out that came from it. As long as the object is there, all of that is the object's:
what is made for a look-up is made for the owner of the view, and what is stored in a list
stays there under the owner of the list.

There is one way around this. Who makes a member of what a member set is made of has a
second member set with the same list, which belongs to no object, and what is added through
that one is no one's, or still the one's that it belonged to before. So what comes from an
object is the object's, or has come by way of such an addition
(`World.Yields.ownerOf_eq_or_strays`).
-/
namespace DynamicMembers

/-- A call of the view returns the member, perhaps among others, and leaves the store. -/
inductive View.Returns (adapter : Adapter) (v : View) (s : Store) : Member → Store → Prop
  | got {name : String} {m : Member} {t : Store}
      (h : (v.get? adapter name).run s = (some m, t)) : Returns adapter v s m t
  | such {p : String → Bool} {m : Member} {t : Store}
      (h : (v.first? adapter p).run s = (some m, t)) : Returns adapter v s m t
  | listed {pattern : Wildcard} {types : TypeMask} {options : MatchOptions} {found : List Member}
      {m : Member} {t : Store} (h : (v.matching adapter pattern types options).run s = (found, t))
      (hm : m ∈ found) : Returns adapter v s m t

section

variable {adapter : Adapter} {v : View} {s t : Store} {m : Member} {o : ObjectId}

/-- What is returned is handed out for something that the view shows. -/
theorem View.Returns.shows (h : v.Returns adapter s m t) :
    ∃ (xs : List Sighting) (members : List Member), (∀ x ∈ xs, v.Shows adapter s x) ∧
      (xs.mapM v.handOut).run s = (members, t) ∧ m ∈ members := by
  cases h with
  | @got name m t h =>
    obtain ⟨x, hx, hrun⟩ := View.run_handOut?_eq_some (v.find? adapter s name) h
    exact ⟨_, _, List.forall_mem_singleton.mpr (.found hx), View.run_mapM_singleton hrun,
      List.mem_singleton_self m⟩
  | @such p m t h =>
    obtain ⟨x, hx, hrun⟩ := View.run_handOut?_eq_some (v.firstSuch? adapter s p) h
    exact ⟨_, _, List.forall_mem_singleton.mpr (.such hx), View.run_mapM_singleton hrun,
      List.mem_singleton_self m⟩
  | listed h hm =>
    exact ⟨_, _, fun x hx => .listed (List.mem_of_mem_filter hx), h, hm⟩

namespace World

variable {Γ : Ledger} {w : World}

/-- What is in the list of an object is the object's as long as that is there. -/
theorem Sound.owner_of_listed {state : ObjectState} (hw : w.Sound Γ)
    (ho : w.store.object? o = some state) (halive : w.store.isAlive o = true)
    (hm : m ∈ (w.store.list state.members).members) : m.owner = some o := by
  have hadmits := hw.store.lists _ m hm
  rw [(hw.store.objects o state ho).2.2] at hadmits
  exact hadmits.2.2 halive

theorem Sound.ownerFor_ofObject {x : Sighting} (hw : w.Sound Γ)
    (halive : w.store.isAlive o = true) (hx : (View.ofObject o).Draws adapter w.store x) :
    (View.ofObject o).ownerFor x = some o := by
  cases hx with
  | reserved ho => cases ho; rfl
  | stored hl hm =>
    obtain ⟨state, hstate, rfl⟩ := Option.map_eq_some_iff.mp hl
    exact hw.owner_of_listed hstate halive hm
  | inherited ho hstate hm =>
    cases ho
    exact hw.owner_of_listed hstate halive hm
  | declared | supplied => rfl

end World

end

namespace World

/-- A call has returned the member, which is held from then on. -/
def receive (w : World) (m : Member) (t : Store) : World :=
  { w with store := t, members := m :: w.members }

/-- A call of the view has returned the member, and led to the second world. -/
structure Receives (w : World) (adapter : Adapter) (v : View) (m : Member) (w' : World) :
    Prop where
  returns : v.Returns adapter w.store m w'.store
  acts : Acts w w'
  held : m ∈ w'.members

/-- Members that come from an object: a view of the object has returned them, or the view of a
member set that comes from it, now or before. -/
inductive Yields (o : ObjectId) : World → Member → Prop
  | object {w w' : World} {adapter : Adapter} {mask : TypeMask} {m : Member}
      (hw : w.Reachable) (ho : o.index < w.store.objects.size)
      (h : w.Receives adapter ((View.ofObject o).withMask mask) m w') : Yields o w' m
  | nested {w w' : World} {g : Member} {v : View} {adapter : Adapter} {mask : TypeMask}
      {m : Member} (hg : Yields o w g) (hv : View.ofMember? w.store g = some v)
      (h : w.Receives adapter (v.withMask mask) m w') : Yields o w' m
  | later {w w' : World} {m : Member} (h : Yields o w m) (hw : Acts w w') : Yields o w' m

variable {Γ : Ledger} {w w' : World} {v : View} {adapter : Adapter} {m : Member} {s t : Store}
  {o : ObjectId}

theorem Sound.receive (hw : w.Sound Γ) (hv : w.Sees v) (h : v.Returns adapter w.store m t) :
    ∃ Δ, Continues Γ w Δ (w.receive m t) := by
  obtain ⟨xs, members, hxs, hrun, hm⟩ := h.shows
  obtain ⟨Δ, hagrees, honward, hkeeps, hsound⟩ := hw.get hv hxs
  have hmembers : (w.gain (xs.mapM v.handOut) id).members = members ++ w.members := by
    rw [World.gain, hrun]
    rfl
  have hstore : (w.gain (xs.mapM v.handOut) id).store = t := congrArg Prod.snd hrun
  rw [hstore] at honward hkeeps
  refine ⟨Δ, hagrees, honward, hkeeps, ?_⟩
  obtain ⟨hs, hmembersSound, hkinds, hcells, hscripts⟩ := hsound
  rw [hstore] at hs hmembersSound hkinds hcells hscripts
  rw [hmembers] at hmembersSound
  exact ⟨hs, List.forall_mem_cons.mpr ⟨hmembersSound m (List.mem_append_left _ hm),
    fun m hm => hmembersSound m (List.mem_append_right _ hm)⟩, hkinds, hcells, hscripts⟩

/-! ## Where strays come from -/

theorem Reachable.onward (hw : w.Reachable) (h : Acts w w') : w.store.Onward w'.store := by
  obtain ⟨Γ, hsound, hΓ⟩ := hw.sound
  obtain ⟨Δ, hΔ⟩ := hsound.acts hΓ h
  exact hΔ.onward

theorem Yields.holds (h : w.Yields o m) :
    w.Reachable ∧ m ∈ w.members ∧ o.index < w.store.objects.size := by
  induction h with
  | object hw ho h =>
    exact ⟨hw.acts h.acts, h.held, Nat.lt_of_lt_of_le ho (hw.onward h.acts).objects⟩
  | nested hg hv h ih =>
    obtain ⟨hw, -, ho⟩ := ih
    exact ⟨hw.acts h.acts, h.held, Nat.lt_of_lt_of_le ho (hw.onward h.acts).objects⟩
  | later h hacts ih =>
    obtain ⟨hw, hm, ho⟩ := ih
    exact ⟨hw.acts hacts, Acts.members_subset hacts hm,
      Nat.lt_of_lt_of_le ho (hw.onward hacts).objects⟩

def ask (w : World) (v : View) (name : String) : World :=
  w.call (liftM (v.get? .bag name) : Run MemberError (Option Member)) (·.toList)

def firstSize : Member := ⟨.made 2, "Size", .initial, some ⟨0⟩, .note ⟨3⟩⟩

/-- The view of that member set, and what is left of it when the object has been let go. -/
def groupView : View := ⟨.set "Group" ⟨3⟩ (some ⟨0⟩) false false, .all⟩

def withGroup : World := shapes.ask ((View.ofObject ⟨0⟩).withMask .all) "group"

def orphaned : World := withGroup.withStore (withGroup.store.release ⟨0⟩)

end World

end DynamicMembers
