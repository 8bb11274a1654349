import DynamicMembers.Proofs.World.Calls

/-! # Additions

When a member can be added is said by the view, the names and the declarations alone
(`View.Refuses`), and what is then different in the store is said in full (`View.Added`):
one list has a copy, that shares no part with anything that was there, and it is told of
once if the view is that of an object. Nothing is half done.
-/
namespace DynamicMembers

namespace View

/-- The member may not be added: the view is locked, the name is reserved, or no one vouches for
the member and it is of a type that only adapters supply, or that the view does not show, or it
is declared under its name for a type of the object that is viewed. -/
def Refuses (s : Store) (v : View) (m : Member) (vouched : Bool) : Prop :=
  v.isReadOnly = true ∨ isReservedName m.name = true ∨ vouched = false ∧
    (m.type = .property ∨ m.type = .method ∨ v.mask.admits m.type = false ∨
      ∃ o, v.scope = .object o ∧ ∃ typeName ∈ s.typeNames o,
        ∃ declared ∈ s.types.typeMembers typeName, sameName declared.name m.name = true)

def announcement? (s : Store) (v : View) (name : String) : Option Announcement :=
  match v.scope with
  | .object o => some ⟨s.typeNames o, name⟩
  | _ => none

/-- The copy of a member has been added to the list of the view. -/
structure Added (s t : Store) (v : View) (l : ListId) (m copy : Member) : Prop where
  /-- The copy belongs to the owner of the view, if there is one. -/
  copied : s.DeepCopy t (v.owner?.or m.owner) s.lists.size m copy
  /-- At every level, the member stands on parts that were there, and the copy on others. -/
  apart : ∀ p, (s.Spans m p → s.Has p) ∧ (t.Spans copy p → ¬ s.Has p)
  list : (t.list l).members = PlainList.put (s.list l).members copy
  keeps : s.Keeps (· ≠ .list l) t
  rest : t = { s with
    cells := t.cells, lists := t.lists, made := t.made, announced := t.announced }
  /-- Whoever looks the name up in the list gets the very member. -/
  found : ∀ (adapter : Adapter) (mask : TypeMask), mask.admits copy.type = true →
    ((v.withMask mask).get? adapter m.name).run t = (some copy, t)
  /-- What is written to it is seen by whoever looks it up. -/
  written : ∀ c ∈ copy.kind.cell?, ∀ (x : Value) (adapter : Adapter) (mask : TypeMask),
    mask.admits copy.type = true → (t.setCell c x).cell c = x ∧
      ((v.withMask mask).get? adapter m.name).run (t.setCell c x) = (some copy, t.setCell c x)
  announced : t.announced.toList = s.announced.toList ++ (v.announcement? s m.name).toList

/-- An addition fails exactly if it is refused, and then nothing is done. -/
def AddsExactly (s : Store) (v : View) (m : Member) (vouched : Bool) : Prop :=
  (v.Refuses s m vouched → ∃ refusal, (v.add m vouched).run.run s = (.error refusal, s)) ∧
  (¬ v.Refuses s m vouched → ∃ l copy t, v.list? s = some l ∧
    (v.add m vouched).run.run s = (.ok copy, t) ∧ v.Added s t l m copy)

/-- A member that is to be added to a view. -/
structure Request where
  view : View
  member : Member
  vouched : Bool

namespace Request

def send (request : Request) : StateM Store (Except MemberError Member) :=
  (request.view.add request.member request.vouched).run

/-- What those who listen are told of a request with this answer. -/
def announcement? (s : Store) (request : Request) (answer : Except MemberError Member) :
    Option Announcement :=
  match answer with
  | .ok _ => request.view.announcement? s request.member.name
  | .error _ => none

end Request

end View

/-! ## Refusals -/

theorem MemberList.WellNamed.contains_iff {l : MemberList} (hl : l.WellNamed) {name : String} :
    l.contains name = true ↔ ∃ m ∈ l.members, sameName m.name name = true := by
  have hfind : l.contains name = (l.find? name).isSome := NameMap.holds_eq_isSome_lookup _ _
  rw [hfind, hl.find?_eq, List.find?_isSome]

theorem TypeTable.declaringType?_isSome {table : TypeTable} {typeNames : List String}
    {name : String} (ht : ∀ entry ∈ table, entry.2.WellNamed) :
    (table.declaringType? typeNames name).isSome = true ↔ ∃ typeName ∈ typeNames,
      ∃ declared ∈ table.typeMembers typeName, sameName declared.name name = true := by
  have hmembers {typeName : String} {entry : String × MemberList}
      (h : table.find? (fun entry => sameName entry.1 typeName) = some entry) :
      table.typeMembers typeName = entry.2.members := by
    rw [typeMembers, NameMap.lookup_eq_find?, h]
    rfl
  rw [declaringType?, Option.isSome_map, List.find?_isSome]
  constructor
  · rintro ⟨entry, hentry, hcontains⟩
    obtain ⟨typeName, htypeName, hfind⟩ := List.mem_filterMap.mp hentry
    refine ⟨typeName, htypeName, ?_⟩
    rw [hmembers hfind]
    exact (ht entry (List.mem_of_find?_eq_some hfind)).contains_iff.mp hcontains
  · rintro ⟨typeName, htypeName, declared, hdeclared, hname⟩
    cases hfind : table.find? (fun entry => sameName entry.1 typeName) with
    | none =>
      rw [typeMembers, NameMap.lookup_eq_find?, hfind] at hdeclared
      cases hdeclared
    | some entry =>
      rw [hmembers hfind] at hdeclared
      exact ⟨entry, List.mem_filterMap.mpr ⟨typeName, htypeName, hfind⟩,
        (ht entry (List.mem_of_find?_eq_some hfind)).contains_iff.mpr ⟨declared, hdeclared, hname⟩⟩

namespace View

variable {s t : Store} {v : View} {m : Member} {vouched : Bool} {l : ListId}

theorem declaringType?_isSome (hs : s.Reachable) (name : String) :
    (v.declaringType? s name).isSome = true ↔ ∃ o, v.scope = .object o ∧
      ∃ typeName ∈ s.typeNames o, ∃ declared ∈ s.types.typeMembers typeName,
        sameName declared.name name = true := by
  obtain ⟨scope, mask⟩ := v
  cases scope with
  | object o =>
    have hdeclaring : (⟨.object o, mask⟩ : View).declaringType? s name =
        s.types.declaringType? (s.typeNames o) name := rfl
    rw [hdeclaring, TypeTable.declaringType?_isSome hs.wellNamed.types]
    exact ⟨fun h => ⟨o, rfl, h⟩, by rintro ⟨_, ⟨⟩, h⟩; exact h⟩
  | grouping view owner => exact ⟨nofun, by rintro ⟨_, ⟨⟩, _⟩⟩
  | set setName k owner inherits locked => exact ⟨nofun, by rintro ⟨_, ⟨⟩, _⟩⟩

theorem addRefusal?_isSome (hs : s.Reachable) :
    (v.addRefusal? s m vouched).isSome = true ↔ v.Refuses s m vouched := by
  have hdeclared := v.declaringType?_isSome hs m.name
  unfold addRefusal? Refuses
  by_cases hlocked : v.isReadOnly = true
  · simp [hlocked]
  by_cases hname : isReservedName m.name = true
  · simp [hname, hlocked]
  by_cases hvouched : vouched = true
  · simp [hname, hlocked, hvouched]
  by_cases htype : m.type = .property ∨ m.type = .method
  · rcases htype with htype | htype <;> simp [hname, hlocked, hvouched, htype]
  by_cases hmask : v.mask.admits m.type = true
  · rw [if_neg hlocked, if_neg hname, if_neg hvouched, if_neg htype,
      if_neg (by simp [admits, hmask]), Option.isSome_map, hdeclared]
    simp [hname, hlocked, hvouched, hmask, not_or.mp htype]
  · simp [hname, hlocked, hvouched, htype, admits, hmask]

/-! ## Additions -/

/-- What is in the list of a view is found, whichever types the view is limited to, if its type is
one of them. -/
theorem get?_of_listed {adapter : Adapter} {name : String} (hl : v.list? s = some l)
    (hname : isReservedName name = false) (hm : (s.list l).find? name = some m)
    {mask : TypeMask} (hmask : mask.admits m.type = true) :
    ((v.withMask mask).get? adapter name).run s = (some m, s) := by
  have hstored : (v.withMask mask).storedLayer? s = some (.stored (s.list l)) :=
    congrArg (Option.map fun l => Layer.stored (s.list l)) hl
  have hfound : (Layer.stored (s.list l)).find? name = some ⟨m, .stored⟩ :=
    congrArg (Option.map (Sighting.mk · .stored)) hm
  have hfind : (v.withMask mask).find? adapter s name = some ⟨m, .stored⟩ := by
    have hadmits : (v.withMask mask).admits m = true := hmask
    rw [find?, if_neg (by simp [hname]), hstored]
    simp [hfound, hadmits, Option.filter_some]
  show ((v.withMask mask).handOut? ((v.withMask mask).find? adapter s name)).run s = _
  rw [hfind]
  rfl

theorem announced_announce (s t : Store) (v : View) (name : String)
    (ht : t.objects = s.objects) (hannounced : t.announced = s.announced) :
    (t.after (v.announce name)).announced.toList =
      s.announced.toList ++ (v.announcement? s name).toList := by
  rw [after_announce]
  obtain ⟨scope, mask⟩ := v
  cases scope with
  | object o =>
    show (t.announced.push ⟨t.typeNames o, name⟩).toList = _
    rw [Array.toList_push, hannounced, Store.typeNames_congr ht]
    rfl
  | grouping view owner => simpa [checksDeclarations, showsReserved, announcement?] using hannounced
  | set setName k owner inherits locked =>
    simpa [checksDeclarations, showsReserved, announcement?] using hannounced

end View

/-- One request is told of if it succeeds, and leaves the type names of objects alone. -/
theorem View.Request.announced_send (request : Request) (s : Store) :
    ∃ answer t, request.send.run s = (answer, t) ∧ t.objects = s.objects ∧
      t.announced.toList = s.announced.toList ++ (request.announcement? s answer).toList := by
  obtain ⟨v, m, vouched⟩ := request
  cases hrefusal : v.addRefusal? s m vouched with
  | some refusal => exact ⟨_, _, View.add_of_refusal hrefusal, rfl, (List.append_nil _).symm⟩
  | none =>
    cases hl : v.list? s with
    | none => exact ⟨_, _, View.add_of_no_list hrefusal hl, rfl, (List.append_nil _).symm⟩
    | some l =>
      have hu := Store.enlarges_copyFor (v.owner?.or m.owner) m s
      have hname := (Store.isCopy_copyFor (v.owner?.or m.owner) m s).name
      obtain ⟨⟨copy, u⟩, hcopy⟩ : ∃ made, (Store.copyFor (v.owner?.or m.owner) m).run s = made :=
        ⟨_, rfl⟩
      rw [Store.after, hcopy] at hu
      rw [hcopy] at hname
      obtain ⟨replaced, members, -, hrun⟩ := View.run_add hrefusal hl hcopy
      have hannounced := announced_announce s (u.setList l members) v copy.name hu.objects
        hu.announced
      rw [hname] at hannounced hrun
      obtain ⟨announced, ht⟩ := v.exists_announced m.name (u.setList l members)
      exact ⟨_, _, hrun, (congrArg Store.objects ht).trans hu.objects, hannounced⟩

/-- Of requests that are sent one after another those are told of, in their order, that succeed and
are sent to an object. -/
theorem View.Request.announced_sendAll (requests : List Request) (s : Store) :
    ((s.after (requests.mapM send)).announced.toList = s.announced.toList ++
      (requests.zip ((requests.mapM send).run s).1).filterMap fun sent =>
        sent.1.announcement? s sent.2) := by
  -- The type names are those at the beginning, whatever has been added in between.
  suffices h : ∀ t : Store, t.objects = s.objects →
      (t.after (requests.mapM send)).announced.toList = t.announced.toList ++
        (requests.zip ((requests.mapM send).run t).1).filterMap fun sent =>
          sent.1.announcement? s sent.2 from h s rfl
  have hsame {t : Store} (ht : t.objects = s.objects) (request : Request)
      (answer : Except MemberError Member) :
      request.announcement? t answer = request.announcement? s answer := by
    unfold announcement? View.announcement?
    rw [Store.typeNames_congr ht]
  induction requests with
  | nil => exact fun t _ => (List.append_nil _).symm
  | cons request rest ih =>
    intro t ht
    obtain ⟨answer, u, hrun, hu, hannounced⟩ := request.announced_send t
    have hrest := ih u (hu.trans ht)
    have hall : ((request :: rest).mapM send).run t =
        (answer :: ((rest.mapM send).run u).1, u.after (rest.mapM send)) := by
      rw [List.mapM_cons, StateT.run_bind, hrun]
      rfl
    rw [Store.after, hall, hrest, hannounced, hsame ht]
    cases hanswer : request.announcement? s answer <;> simp [hanswer]

/-- The view of an object has a list, and so has that of a member set unless it is locked. -/
theorem World.Sees.exists_list {w : World} {v : View} (hv : w.Sees v) (h : v.isReadOnly = false) :
    ∃ l, v.list? w.store = some l := by
  cases hv with
  | @object o ho mask =>
    exact ⟨_, congrArg (Option.map ObjectState.members) (Array.getElem?_eq_getElem ho)⟩
  | @member m v hm hv mask =>
    rcases View.ofMember?_cases hv with ⟨_, _, _, rfl⟩ | ⟨_, _, _, rfl⟩
    · exact absurd h (by simp [View.isReadOnly, View.withMask])
    · exact ⟨_, rfl⟩

theorem View.list?_congr {s t : Store} (v : View) (h : t.objects = s.objects) :
    v.list? t = v.list? s := by
  rw [list?, list?, Store.object?_congr h]

theorem MemberList.find?_of_add {l l' : MemberList} {m : Member} {vouched : Bool}
    {replaced : Option Member} (h : l.add m vouched = .ok (replaced, l')) :
    l'.find? m.name = some m := by
  unfold MemberList.add at h
  split at h
  · cases h
  · split at h
    · cases h
    · cases h
      exact NameMap.lookup_insert_self m.name m l.entries

/-- With an addition, a list changes as a plain list does. -/
theorem MemberList.WellNamed.of_add {l l' : MemberList} {m : Member} {vouched : Bool}
    {replaced : Option Member} (hl : l.WellNamed) (h : l.add m vouched = .ok (replaced, l')) :
    l'.members = PlainList.put l.members m := by
  unfold MemberList.add at h
  split at h
  · cases h
  · split at h
    · cases h
    · cases h
      exact NameMap.values_insert m hl.keyed

theorem World.Sees.added {w : World} {v : View} {m : Member} {vouched : Bool}
    (hw : w.Reachable) (hv : w.Sees v) (hm : m ∈ w.members)
    (hrefusal : v.addRefusal? w.store m vouched = none) : ∃ l copy t, v.list? w.store = some l ∧
      (v.add m vouched).run.run w.store = (.ok copy, t) ∧ v.Added w.store t l m copy := by
  obtain ⟨Γ, hsound, -⟩ := hw.sound
  replace hsound := hsound.agree
    (Ledger.agrees_awaiting (Γ := Γ) (s := w.store) (h := .owned (v.owner?.or m.owner)))
  have hname := View.not_reserved_of_addRefusal? hrefusal
  obtain ⟨l, hl⟩ := hv.exists_list (View.not_locked_of_addRefusal? hrefusal)
  obtain ⟨copy, u, replaced, members, hadd, hrun, hu, -, -, hdeep⟩ :=
    hv.run_add hsound hm Ledger.awaits_awaiting hrefusal hl
  obtain ⟨hthere, -⟩ := hv.list hsound hl
  obtain ⟨_, hfits⟩ := (hsound.members m hm).exists_owner
  obtain ⟨levels, hlevels⟩ := hsound.store.grounded hfits.kind
  have hannounced := View.announced_announce w.store (u.setList l members) v copy.name hu.objects
    hu.announced
  obtain ⟨announced, ht⟩ := v.exists_announced copy.name (u.setList l members)
  rw [ht] at hrun hannounced
  have hlist : Store.list { u.setList l members with announced := announced } l = members :=
    Store.list_setList_self members (hu.has hthere)
  have hmembers := (hw.store.wellNamed.lists l).of_add (hu.list hthere ▸ hadd)
  have hfind := MemberList.find?_of_add hadd
  have hview : v.list? { u.setList l members with announced := announced } = some l :=
    (v.list?_congr hu.objects).trans hl
  have hnew : Store.Keeps (¬ w.store.Has ·) u { u.setList l members with announced := announced } :=
    .setList_announced (fun k hk hkl => hk (hkl ▸ hthere)) members announced
  have hcopied := hdeep.transfer hlevels (Store.Coherent.refl _) hnew
  have hcopyName : copy.name = m.name := hcopied.freshCopy.name
  rw [hcopyName] at hannounced hfind
  rw [← hlist] at hfind hmembers
  have hwritten (c : CellId) (x : Value) :
      v.list? (Store.setCell { u.setList l members with announced := announced } c x) = some l :=
    (v.list?_congr rfl).trans hview
  refine ⟨l, copy, _, hl, hrun, {
    copied := hcopied
    apart := fun p => ⟨hsound.store.has_of_spans hfits,
      fun hp => (hcopied.fresh hp).1⟩
    list := hmembers
    keeps := (hu.keeps.weaken fun _ _ => trivial).trans
      (.setList_announced (fun k hk hkl => hk (by rw [hkl])) members announced)
    rest := ?_
    found := fun adapter mask hmask => View.get?_of_listed hview hname hfind hmask
    written := fun c hc x adapter mask hmask => ⟨?_, ?_⟩
    announced := hannounced }⟩
  · show ({ u.setList l members with announced := announced } : Store) = _
    simp only [Store.setList, hu.scripts, hu.objects, hu.types, hu.shelf, hu.modes]
  · exact Store.cell_setCell_self (hcopied.freshCopy.fresh _
      (Member.mem_own_of_kind (MemberKind.cell_mem_own.mpr hc))).2 x
  · exact View.get?_of_listed (hwritten c x) hname hfind hmask

/-- In every state, additions do what they should, and those who listen are told of those that did,
each once and in their order. -/
theorem World.Reachable.addsExactly {w : World} (hw : w.Reachable) :
    (∀ (v : View) (m : Member) (vouched : Bool), w.Sees v → m ∈ w.members →
      v.AddsExactly w.store m vouched) ∧
    ∀ requests : List View.Request,
      (w.store.after (requests.mapM View.Request.send)).announced.toList =
        w.store.announced.toList ++
          (requests.zip ((requests.mapM View.Request.send).run w.store).1).filterMap fun sent =>
            sent.1.announcement? w.store sent.2 := by
  refine ⟨fun v m vouched hv hm => ⟨fun h => ?_, fun h => ?_⟩, fun requests =>
    View.Request.announced_sendAll requests w.store⟩
  · obtain ⟨refusal, hrefusal⟩ := Option.isSome_iff_exists.mp
      ((View.addRefusal?_isSome hw.store).mpr h)
    exact ⟨refusal, View.add_of_refusal hrefusal⟩
  · refine hv.added hw hm ?_
    rw [← Option.not_isSome_iff_eq_none, View.addRefusal?_isSome hw.store]
    exact h

/-- An object takes a note, and refuses a member set that is declared for its type; it is the note
that is told of. -/
theorem World.Reachable.addsExactly_shapes :
    shapes.Reachable ∧ (View.ofObject ⟨0⟩).AddsExactly shapes.store looseSize false ∧
    (((View.ofObject ⟨0⟩).add looseSize false).run.run shapes.store).1.toOption =
      some ⟨.made 2, "Size", .initial, some ⟨0⟩, .note ⟨3⟩⟩ ∧
    (shapes.store.after (([⟨.ofObject ⟨0⟩, looseSize, false⟩, ⟨.ofObject ⟨0⟩, looseGroup, false⟩] :
      List View.Request).mapM View.Request.send)).announced.toList = [⟨["Shape"], "Size"⟩] := by
  obtain ⟨hadds, hannounced⟩ := World.Reachable.addsExactly reachable_shapes
  have hobject : (⟨0⟩ : ObjectId).index < shapes.store.objects.size := by decide +kernel
  refine ⟨reachable_shapes, hadds _ _ _ (.object hobject .all) (by decide +kernel),
    by decide +kernel, ?_⟩
  rw [hannounced]
  decide +kernel

end DynamicMembers
