import DynamicMembers.Proofs.View.Additions
import DynamicMembers.Proofs.View.Owners

/-! # Member sets of an object

A member set that an object has for itself is the same whenever it is looked up
(`View.Lasts`). Of a member set that is declared for its type the object shows a copy, and
the next look-up shows another one, made of the declaration again
(`View.DeclaresSet.find?_nested`).
-/
namespace DynamicMembers

/-! ## What a look-up depends on -/

/-- Of the object the same is to be seen in both stores. -/
structure Store.ShowsAlike (adapter : Adapter) (o : ObjectId) (s t : Store) : Prop where
  objects : t.objects = s.objects
  types : t.types = s.types
  places : ∀ state, s.object? o = some state → t.list state.members = s.list state.members ∧
    adapter.rows (t.cell state.base) = adapter.rows (s.cell state.base)

namespace Store.ShowsAlike

variable {Γ : Ledger} {o : ObjectId} {s t u : Store} {adapter : Adapter}

theorem object? (h : ShowsAlike adapter o s t) (k : ObjectId) : t.object? k = s.object? k :=
  congrFun (object?_congr h.objects) k

theorem trans (h : ShowsAlike adapter o s t) (hrest : ShowsAlike adapter o t u) :
    ShowsAlike adapter o s u where
  objects := hrest.objects.trans h.objects
  types := hrest.types.trans h.types
  places state ho :=
    have ⟨hlist, hrows⟩ := hrest.places state ((h.object? o).trans ho)
    ⟨hlist.trans (h.places state ho).1, hrows.trans (h.places state ho).2⟩

theorem of_keeps {P : Part → Prop} (hs : s.Sound Γ) (h : s.Keeps P t)
    (hobjects : t.objects = s.objects) (htypes : t.types = s.types)
    (hP : ∀ state, s.object? o = some state → P (.cell state.base) ∧ P (.list state.members)) :
    ShowsAlike adapter o s t where
  objects := hobjects
  types := htypes
  places state ho :=
    have ⟨⟨hcell, _⟩, hlist, _⟩ := hs.objects o state ho
    ⟨h.list (hP state ho).2 hlist, congrArg adapter.rows (h.cell (hP state ho).1 hcell)⟩

theorem of_enlarges (hs : s.Sound Γ) (h : s.Enlarges t) : ShowsAlike adapter o s t :=
  of_keeps hs h.keeps h.objects h.types fun _ _ => ⟨trivial, trivial⟩

/-- No member keeps what is stored in it where the value of an object is. -/
theorem setCell (hs : s.Sound Γ) {c : CellId} (hc : ∀ k, Γ (.cell c) ≠ .base k) (v : Value) :
    ShowsAlike adapter o s (s.setCell c v) := by
  refine of_keeps hs (P := (· ≠ .cell c)) (.setCell (fun k hk hkc => hk (by rw [hkc])) v) rfl rfl
    fun state ho => ⟨fun h => hc o ?_, nofun⟩
  rw [← h]
  exact (hs.objects o state ho).1.2

/-- What is made later is not to be seen of the object. -/
theorem enlarge (h : ShowsAlike adapter o s t) (hs : s.Sound Γ)
    (hhas : ∀ {p}, s.Has p → t.Has p) (hu : t.Enlarges u) : ShowsAlike adapter o s u where
  objects := hu.objects.trans h.objects
  types := hu.types.trans h.types
  places state ho :=
    have ⟨⟨hcell, _⟩, hlist, _⟩ := hs.objects o state ho
    have ⟨hsameList, hsameRows⟩ := h.places state ho
    ⟨(hu.list (hhas hlist)).trans hsameList, by rw [hu.cell (hhas hcell), hsameRows]⟩

theorem declaredLayer (h : ShowsAlike adapter o s t) : t.declaredLayer o = s.declaredLayer o := by
  rw [Store.declaredLayer, Store.declaredLayer, typeNames_congr h.objects, h.types]

theorem suppliedLayer (h : ShowsAlike adapter o s t) :
    t.suppliedLayer adapter o = s.suppliedLayer adapter o := by
  rw [Store.suppliedLayer, Store.suppliedLayer, h.object?]
  cases ho : s.object? o with
  | none => rfl
  | some state => simp only [Layer.supplied, (h.places state ho).2]

theorem ownerLayer (h : ShowsAlike adapter o s t) :
    t.ownerLayer adapter o = s.ownerLayer adapter o := by
  have hstored : (t.object? o).map (fun state => Layer.stored (t.list state.members)) =
      (s.object? o).map fun state => Layer.stored (s.list state.members) := by
    rw [h.object?]
    cases ho : s.object? o with
    | none => rfl
    | some state => simp only [Option.map_some, (h.places state ho).1]
  rw [Store.ownerLayer, Store.ownerLayer, hstored, h.declaredLayer, h.suppliedLayer]

end Store.ShowsAlike

theorem View.storedLayer?_congr {s t : Store} {v : View} (hobjects : t.objects = s.objects)
    (hlist : ∀ l, v.list? s = some l → t.list l = s.list l) :
    v.storedLayer? t = v.storedLayer? s := by
  rw [storedLayer?, storedLayer?, v.list?_congr hobjects]
  cases hl : v.list? s with
  | none => rfl
  | some l => rw [Option.map_some, Option.map_some, hlist l hl]

theorem View.sourceLayers_congr {adapter : Adapter} {s t : Store} {v : View}
    (howner : ∀ o ∈ v.owner?, Store.ShowsAlike adapter o s t) :
    v.sourceLayers adapter t = v.sourceLayers adapter s := by
  unfold sourceLayers
  split
  next o ho =>
    refine List.map_congr_left fun source _ => ?_
    cases source with
    | declarations => exact (howner o ho).declaredLayer
    | adapter => exact (howner o ho).suppliedLayer
    | owner => exact (howner o ho).ownerLayer
  next => rfl

/-- A look-up by name depends on the list of the view and on what is to be seen of its owner. -/
theorem View.find?_congr {adapter : Adapter} {s t : Store} {v : View}
    (hlist : v.storedLayer? t = v.storedLayer? s)
    (howner : ∀ o ∈ v.owner?, Store.ShowsAlike adapter o s t) (name : String) :
    v.find? adapter t name = v.find? adapter s name := by
  rw [find?, find?, hlist, sourceLayers_congr howner]

theorem View.find?_ofObject_congr {adapter : Adapter} {s t : Store} {o : ObjectId}
    (h : Store.ShowsAlike adapter o s t) (name : String) :
    (ofObject o).find? adapter t name = (ofObject o).find? adapter s name := by
  refine find?_congr (storedLayer?_congr h.objects fun l hl => ?_) (by rintro _ ⟨⟩; exact h) name
  obtain ⟨state, ho, rfl⟩ := Option.map_eq_some_iff.mp hl
  exact (h.places state ho).1

/-! ## Members of member sets -/

namespace View

def nested? (adapter : Adapter) (o : ObjectId) (name : String) : StateM Store (Option View) := do
  match ← (ofObject o).get? adapter name with
  | some group => return ofMember? (← get) group
  | none => return none

/-- The member under the second name in the member set under the first. -/
def nestedGet? (adapter : Adapter) (o : ObjectId) (name inner : String) :
    StateM Store (Option Member) := do
  match ← nested? adapter o name with
  | some v => v.get? adapter inner
  | none => return none

variable {adapter : Adapter} {s t u : Store} {v : View} {o : ObjectId} {name inner : String}
  {m group other : Member} {x : Sighting}

theorem run_nested?_of_get? (h : ((ofObject o).get? adapter name).run s = (some group, t)) :
    (nested? adapter o name).run s = (ofMember? t group, t) := by
  rw [nested?, StateT.run_bind, h]
  rfl

theorem exists_group_of_nested? (h : (nested? adapter o name).run s = (some v, t)) :
    ∃ x group, (ofObject o).find? adapter s name = some x ∧
      ((ofObject o).handOut x).run s = (group, t) ∧ ofMember? t group = some v := by
  obtain ⟨⟨found, t'⟩, hget⟩ : ∃ got, ((ofObject o).get? adapter name).run s = got := ⟨_, rfl⟩
  cases found with
  | none =>
    rw [nested?, StateT.run_bind, hget] at h
    cases h
  | some group =>
    rw [run_nested?_of_get? hget, Prod.mk.injEq] at h
    obtain ⟨hv, rfl⟩ := h
    obtain ⟨x, hx, hrun⟩ := run_handOut?_eq_some ((ofObject o).find? adapter s name) hget
    exact ⟨x, group, hx, hrun, hv⟩

theorem run_nestedGet?_of_nested? (h : (nested? adapter o name).run s = (some v, t)) :
    (nestedGet? adapter o name inner).run s = (v.get? adapter inner).run t := by
  rw [nestedGet?, StateT.run_bind, h]
  rfl

theorem exists_nested?_of_nestedGet?
    (h : (nestedGet? adapter o name inner).run s = (some m, u)) :
    ∃ v t x, (nested? adapter o name).run s = (some v, t) ∧
      v.find? adapter t inner = some x ∧ (v.handOut x).run t = (m, u) := by
  obtain ⟨⟨found, t⟩, hnested⟩ : ∃ got, (nested? adapter o name).run s = got := ⟨_, rfl⟩
  cases found with
  | none =>
    rw [nestedGet?, StateT.run_bind, hnested] at h
    cases h
  | some v =>
    rw [run_nestedGet?_of_nested? hnested] at h
    obtain ⟨x, hx, hrun⟩ := run_handOut?_eq_some (v.find? adapter t inner) h
    exact ⟨v, t, x, hnested, hx, hrun⟩

/-! ## Member sets that last -/

theorem ofMember?_congr (hobjects : t.objects = s.objects) (hname : other.name = m.name)
    (hflags : other.flags = m.flags) (howner : other.owner = m.owner)
    (hkind : other.kind = m.kind) : ofMember? t other = ofMember? s m := by
  rw [ofMember?, ofMember?, Store.ownerOf, Store.ownerOf, hname, hflags, howner, hkind,
    Store.isAlive_congr hobjects]

/-- Whatever is done to other things than what is to be seen of the object, the view is had again
from the object under the name. -/
def Lasts (adapter : Adapter) (s : Store) (o : ObjectId) (name : String) (v : View) : Prop :=
  ∀ u, Store.ShowsAlike adapter o s u →
    ∃ t, (nested? adapter o name).run u = (some v, t) ∧ u.Enlarges t

/-- Changes of the view, if it can be changed, leave the list of the object alone. -/
def Spares (s t : Store) (o : ObjectId) (v : View) : Prop :=
  v.isReadOnly = true ∨ ∀ l ∈ v.list? t, ∀ state, s.object? o = some state → state.members ≠ l

theorem lasts_of_kind (hx : (ofObject o).find? adapter s name = some x)
    (hrun : ((ofObject o).handOut x).run s = (group, t)) (hv : ofMember? t group = some v)
    (hkind : ∀ u, (((ofObject o).handOut x).run u).1.kind = group.kind) :
    Lasts adapter s o name v := by
  intro u hu
  have hcopy := (ofObject o).isCopy_handOut x s
  have hagain := (ofObject o).isCopy_handOut x u
  have hfind : (ofObject o).find? adapter u name = some x := by
    rw [← hx]
    exact find?_ofObject_congr hu name
  have ht := enlarges_handOut (ofObject o) x s
  have hu' := enlarges_handOut (ofObject o) x u
  rw [hrun] at hcopy
  rw [Store.after, hrun] at ht
  refine ⟨_, ?_, hu'⟩
  rw [run_nested?_of_get? (run_get?_of_find? hfind rfl), ← hv]
  refine congrArg (·, _) (ofMember?_congr ?_ (hagain.name.trans hcopy.name.symm)
    (hagain.flags.trans hcopy.flags.symm) (hagain.owner.trans hcopy.owner.symm) (hkind u))
  exact (hu'.objects.trans hu.objects).trans ht.objects.symm

/-- The object has a member set under the name that is declared for one of its types. -/
structure DeclaresSet (adapter : Adapter) (s : Store) (o : ObjectId) (name : String)
    (template : Member) (l : ListId) : Prop where
  find? : (ofObject o).find? adapter s name = some ⟨template, .declared⟩
  list? : template.kind.list? = some l

theorem lasts_of_reserved {owner : ObjectId} {which : ReservedMember}
    (hx : (ofObject o).find? adapter s name = some ⟨.reserved owner which, .reserved which⟩)
    (hrun : ((ofObject o).handOut ⟨.reserved owner which, .reserved which⟩).run s = (group, t))
    (hv : ofMember? t group = some v) : Lasts adapter s o name v ∧ v.isReadOnly = true := by
  have hkind (u : Store) :
      (((ofObject o).handOut ⟨.reserved owner which, .reserved which⟩).run u).1.kind =
        (Member.reserved owner which).kind := by
    rw [handOut_reserved rfl]
  have hgroup := hkind s
  rw [hrun] at hgroup
  have hlist : group.kind.list? = none := by
    rw [hgroup]
    cases which <;> rfl
  exact ⟨lasts_of_kind hx hrun hv fun u => (hkind u).trans hgroup.symm,
    (locked_of_list?_eq_none hv hlist).1⟩

/-- What is declared to show what its owner has does so in each copy. -/
theorem lasts_of_declared {template : Member}
    (hx : (ofObject o).find? adapter s name = some ⟨template, .declared⟩)
    (hrun : ((ofObject o).handOut ⟨template, .declared⟩).run s = (group, t))
    (hv : ofMember? t group = some v) (hlist : template.kind.list? = none) :
    Lasts adapter s o name v ∧ v.isReadOnly = true := by
  have hform (u : Store) := ((ofObject o).isCopy_handOut ⟨template, .declared⟩ u).form
  have hgroup := hform s
  rw [hrun] at hgroup
  have hnone : group.kind.list? = none := by
    simpa [hlist] using MemberKind.list?_of_form hgroup
  obtain ⟨hlocked, view, inherits, hkind⟩ := locked_of_list?_eq_none hv hnone
  refine ⟨lasts_of_kind hx hrun hv fun u => ?_, hlocked⟩
  have hsame := (hform u).trans hgroup.symm
  rw [hkind] at hsame ⊢
  exact MemberKind.eq_of_form rfl rfl hsame

end View

theorem AdapterRow.type_of_toMember? {row : AdapterRow} {tag : AdapterTag} {base : CellId}
    {m : Member} (h : row.toMember? tag base = some m) :
    m.type ≠ .memberSet ∧ m.type ≠ .noteProperty := by
  unfold toMember? at h
  split at h
  · cases h
  · cases h
    have htype (kind : MemberKind) (hkind : kind = row.memberKind tag base) :
        kind.type ≠ .memberSet ∧ kind.type ≠ .noteProperty := by
      subst hkind
      unfold memberKind
      split <;> exact ⟨nofun, nofun⟩
    exact htype _ rfl

namespace World.Sound
open View

variable {Γ : Ledger} {w : World} {adapter : Adapter} {o : ObjectId} {name : String} {v : View}
  {t : Store}

/-- A member set in the list of an object does not have that list. -/
theorem ne_of_mem_list (hw : w.Sound Γ) {l k : ListId} {m : Member}
    (hm : m ∈ (w.store.list l).members) (hk : m.kind.list? = some k) : l ≠ k := by
  rintro rfl
  obtain ⟨levels, hlevels⟩ := hw.store.levels l m hm
  exact hlevels.not_nests_self hk (.single ⟨m, hm, hk⟩)

/-- A member set in the list of an object lasts, and is not changed with that list. -/
theorem lasts_of_stored (hw : w.Sound Γ) {m : Member} {state : ObjectState}
    (hx : (ofObject o).find? adapter w.store name = some ⟨m, .stored⟩)
    (hv : ofMember? w.store m = some v) (ho : w.store.object? o = some state)
    (hm : m ∈ (w.store.list state.members).members) :
    Lasts adapter w.store o name v ∧ Spares w.store w.store o v := by
  refine ⟨lasts_of_kind hx rfl hv fun u => rfl, ?_⟩
  cases hlist : m.kind.list? with
  | none => exact .inl (locked_of_list?_eq_none hv hlist).1
  | some k =>
    refine .inr fun l hl state' ho' => ?_
    obtain rfl : state = state' := Option.some.inj (ho.symm.trans ho')
    obtain rfl : k = l := Option.some.inj ((list?_of_ofMember? hv hlist).symm.trans hl)
    exact hw.ne_of_mem_list hm hlist

/-- The member sets that an object has for itself last, and if they can be changed, what is seen of
the object is not changed with them. -/
theorem lasts_or_declares (hw : w.Sound Γ)
    (h : (nested? adapter o name).run w.store = (some v, t)) :
    (Lasts adapter w.store o name v ∧ Spares w.store t o v ∧
      ∀ template l, ¬ DeclaresSet adapter w.store o name template l) ∨
    ∃ template l, DeclaresSet adapter w.store o name template l := by
  obtain ⟨x, group, hx, hrun, hv⟩ := exists_group_of_nested? h
  have hkept (horigin : x.origin ≠ .declared) :
      ∀ template l, ¬ DeclaresSet adapter w.store o name template l := by
    intro template l hdeclares
    obtain rfl : x = ⟨template, .declared⟩ := Option.some.inj (hx.symm.trans hdeclares.find?)
    exact horigin rfl
  have hstored {m : Member} {state : ObjectState} (hxm : x = ⟨m, .stored⟩)
      (ho : w.store.object? o = some state) (hm : m ∈ (w.store.list state.members).members) :
      Lasts adapter w.store o name v ∧ Spares w.store t o v := by
    subst hxm
    cases hrun
    exact hw.lasts_of_stored hx hv ho hm
  cases draws_of_find? hx with
  | @reserved o' which ho' =>
    obtain ⟨hlasts, hlocked⟩ := lasts_of_reserved hx hrun hv
    exact .inl ⟨hlasts, .inl hlocked, hkept nofun⟩
  | @stored l m hl hm =>
    obtain ⟨state, ho, rfl⟩ := Option.map_eq_some_iff.mp hl
    obtain ⟨hlasts, hspares⟩ := hstored rfl ho hm
    exact .inl ⟨hlasts, hspares, hkept nofun⟩
  | @inherited o' state m ho' ho hm =>
    obtain rfl : o = o' := Option.some.inj ho'
    obtain ⟨hlasts, hspares⟩ := hstored rfl ho hm
    exact .inl ⟨hlasts, hspares, hkept nofun⟩
  | @declared o' entry template ho' hentry hm =>
    cases hlist : template.kind.list? with
    | some l => exact .inr ⟨template, l, hx, hlist⟩
    | none =>
      obtain ⟨hlasts, hlocked⟩ := lasts_of_declared hx hrun hv hlist
      refine .inl ⟨hlasts, .inl hlocked, fun template' l hdeclares => ?_⟩
      cases Option.some.inj (hx.symm.trans hdeclares.find?)
      cases hlist.symm.trans hdeclares.list?
  | @supplied o' state row m ho' ho hrow =>
    have htype := ((ofObject o).isCopy_handOut ⟨m, .supplied⟩ w.store).type
    rw [hrun, type_of_ofMember? hv] at htype
    exact absurd htype.symm (AdapterRow.type_of_toMember? hrow).1

end World.Sound

/-! ## Member sets that are declared -/

namespace View

variable {Γ : Ledger} {adapter : Adapter} {s t u : Store} {o : ObjectId} {name inner : String}
  {template : Member} {l k : ListId} {copied : Member → Member → Prop} {levels : Nat}

/-- What a member set shows, by name. -/
theorem find?_set (adapter : Adapter) (t : Store) (name : String) (k : ListId)
    (owner : Option ObjectId) (inherits locked : Bool) (inner : String) :
    (⟨.set name k owner inherits locked, .all⟩ : View).find? adapter t inner =
      (((t.list k).find? inner).map (Sighting.mk · .stored)).or
        (if inherits then owner.bind fun o => (t.ownerLayer adapter o).find? inner else none) := by
  have hall (found : Option Sighting) : found.filter (fun x =>
      (⟨.set name k owner inherits locked, .all⟩ : View).admits x.member) = found := by
    cases found <;> simp [admits, Option.filter_some]
  have hstored : (Layer.stored (t.list k)).find? inner =
      ((t.list k).find? inner).map (Sighting.mk · .stored) := rfl
  rw [find?, if_neg (by simp [showsReserved])]
  simp only [hall, storedLayer?, list?, Option.map_some, Option.toList_some, List.cons_append,
    List.nil_append, List.findSome?_cons, sourceLayers, owner?, sources, hstored]
  cases (t.list k).find? inner <;> cases owner <;> cases inherits <;>
    simp [Source.layer, List.findSome?]

/-- What a list of copies has under a name is a copy of what is there under the name. -/
theorem find?_of_listCopy (h : s.ListCopy t copied l k) (inner : String) :
    ((s.list l).find? inner = none ∧ (t.list k).find? inner = none) ∨
      ∃ m other, (s.list l).find? inner = some m ∧ (t.list k).find? inner = some other ∧
        copied m other := by
  have hentries := h.entries
  unfold MemberList.find?
  generalize (s.list l).entries = entries, (t.list k).entries = copies at hentries
  induction hentries with
  | nil => exact .inl ⟨rfl, rfl⟩
  | @cons entry other rest others hfirst _ ih =>
    by_cases hkey : sameName entry.1 inner = true
    · refine .inr ⟨entry.2, other.2, if_pos hkey, if_pos ?_, hfirst.2⟩
      rwa [hfirst.1]
    · have hother : ¬ sameName other.1 inner = true := by rwa [hfirst.1]
      have hlookup : NameMap.lookup inner (entry :: rest) = NameMap.lookup inner rest :=
        if_neg hkey
      have hothers : NameMap.lookup inner (other :: others) = NameMap.lookup inner others :=
        if_neg hother
      rw [hlookup, hothers]
      exact ih

theorem DeclaresSet.grounded (hs : s.Sound Γ) (h : DeclaresSet adapter s o name template l) :
    ∃ levels, s.Grounded levels template := by
  cases draws_of_find? h.find? with
  | @declared o' entry m ho' hentry hm =>
    obtain ⟨_, hfits⟩ := (hs.types entry hentry template hm).exists_fits
    exact hs.grounded hfits.kind

/-- A look-up of a declared member set makes a copy of it, with a list that was not there. -/
theorem DeclaresSet.run_nested? (h : DeclaresSet adapter s o name template l)
    (hlevels : s.Grounded levels template) :
    ∃ k inherits t fewer, (nested? adapter o name).run s = (some ⟨.set template.name k
        ((some o).filter s.isAlive) inherits template.flags.reserved, .all⟩, t) ∧
      template.kind = .memberSet (.list l) inherits ∧ s.Enlarges t ∧ ¬ s.Has (.list k) ∧
      t.Has (.list k) ∧ s.ListCopy t (s.DeepCopy t (some o) fewer) l k := by
  have hdeep := Store.deepCopy_copyFor (some o) hlevels
  have ht := Store.enlarges_copyFor (some o) template s
  obtain ⟨⟨copy, t⟩, hrun⟩ : ∃ made, (Store.copyFor (some o) template).run s = made := ⟨_, rfl⟩
  rw [Store.after, hrun] at hdeep ht
  obtain ⟨inherits, hkind⟩ := MemberKind.exists_memberSet_of_list? h.list?
  have hform := hdeep.freshCopy.form
  rw [hkind] at hform
  obtain ⟨k, hcopyKind⟩ := MemberKind.exists_list_of_form hform
  have hk : copy.kind.list? = some k := by rw [hcopyKind]; rfl
  have hnew := hdeep.freshCopy.fresh _ (Member.mem_own_of_kind (MemberKind.list_mem_own.mpr hk))
  obtain ⟨fewer, hlist⟩ := hdeep.nested h.list? hk
  refine ⟨k, inherits, t, fewer, ?_, hkind, ht, hnew.1, hnew.2, hlist⟩
  rw [run_nested?_of_get? (run_get?_of_find? h.find? hrun)]
  rw [ofMember?, hcopyKind, Store.ownerOf, hdeep.freshCopy.owner, hdeep.freshCopy.name,
    hdeep.freshCopy.flags, Store.isAlive_congr ht.objects]

/-- What the object has under a name, for a member set of it that shows this besides its own. -/
def passedOn? (adapter : Adapter) (s : Store) (o : ObjectId) (inherits : Bool) (inner : String) :
    Option Sighting :=
  if inherits then ((some o).filter s.isAlive).bind fun o => (s.ownerLayer adapter o).find? inner
  else none

/-- Whenever a declared member set is looked up later, it is a new one, and shows what is declared,
not what has become of a copy. -/
theorem DeclaresSet.find?_nested (hs : s.Sound Γ) (h : DeclaresSet adapter s o name template l)
    (hhas : ∀ {p}, s.Has p → u.Has p) (hlists : ∀ k, s.Has (.list k) → u.list k = s.list k)
    (hu : Store.ShowsAlike adapter o s u) :
    ∃ inherits v t levels, (nested? adapter o name).run u = (some v, t) ∧ u.Enlarges t ∧
      (∃ k, v.list? t = some k ∧ ¬ u.Has (.list k)) ∧
      template.kind = .memberSet (.list l) inherits ∧ ∀ inner,
        ((s.list l).find? inner = none ∧
          v.find? adapter t inner = passedOn? adapter s o inherits inner) ∨
        ∃ declared copy, (s.list l).find? inner = some declared ∧
          v.find? adapter t inner = some ⟨copy, .stored⟩ ∧
          u.DeepCopy t (some o) levels declared copy := by
  obtain ⟨levels, hlevels⟩ := h.grounded hs
  have hthere : s.Has (.list l) := hlevels.has _ (MemberKind.list_mem_own.mpr h.list?)
  have hlater : DeclaresSet adapter u o name template l :=
    ⟨(find?_ofObject_congr hu name).trans h.find?, h.list?⟩
  obtain ⟨k, inherits, t, fewer, hrun, hkind, ht, hnew, -, hcopy⟩ :=
    hlater.run_nested? (hlevels.of_subset hhas fun l hl nested hnested => by
      rwa [← hlists l hl])
  refine ⟨inherits, _, t, fewer, hrun, ht, ⟨k, rfl, hnew⟩, hkind, fun inner => ?_⟩
  have hpassedOn : (if inherits then ((some o).filter u.isAlive).bind fun o =>
      (t.ownerLayer adapter o).find? inner else none) = passedOn? adapter s o inherits inner := by
    rw [passedOn?, Option.filter_some, Option.filter_some, Store.isAlive_congr hu.objects]
    split
    · split
      · rw [Option.bind_some, Option.bind_some, (hu.enlarge hs hhas ht).ownerLayer]
      · rfl
    · rfl
  rw [find?_set, hpassedOn]
  rcases find?_of_listCopy hcopy inner with ⟨hnone, hcopied⟩ | ⟨m, other, hm, hother, hdeep⟩
  · rw [hlists l hthere] at hnone
    exact .inl ⟨hnone, by rw [hcopied]; rfl⟩
  · rw [hlists l hthere] at hm
    exact .inr ⟨m, other, hm, by rw [hother]; rfl, hdeep⟩

end View

end DynamicMembers
