import DynamicMembers.Proofs.Store.ListChanges
import DynamicMembers.Proofs.World.Ledger

/-! # Writes that respect a ledger

The single writes of a store, and then copies: a copy takes new parts only, and the
ledger that has them for the owner of the copy is respected from the first level to the
last (`Store.Sound.copyFor`).
-/
namespace DynamicMembers

/-- What may become of an object: it may get other type names, and it may be let go. -/
structure ObjectState.Becomes (old state : ObjectState) : Prop where
  base : state.base = old.base
  members : state.members = old.members
  alive : state.alive = true → old.alive = true

namespace Store

variable {s : Store} {o : ObjectId} {old state : ObjectState}

theorem object?_setObject (ho : s.object? o = some old) (k : ObjectId) :
    (s.setObject o state).object? k = if k = o then some state else s.object? k := by
  rw [object?, setObject, Array.getElem?_setIfInBounds]
  by_cases hk : k = o
  · subst hk
    rw [if_pos rfl, if_pos rfl, if_pos (Array.getElem?_eq_some_iff.mp ho).1]
  · have hindex : o.index ≠ k.index := fun h => hk (by
      cases k
      cases o
      exact congrArg ObjectId.mk h.symm)
    rw [if_neg hindex, if_neg hk]
    rfl

theorem Onward.setObject (ho : s.object? o = some old) (hstate : old.Becomes state) :
    s.Onward (s.setObject o state) := by
  refine ⟨id, Nat.le_of_eq Array.size_setIfInBounds.symm, fun {k} hk h => ?_⟩
  rw [isAlive, object?_setObject ho] at h
  by_cases hsame : k = o
  · subst hsame
    rw [isAlive, ho]
    exact hstate.alive (by simpa using h)
  · rwa [if_neg hsame] at h

theorem size_objects_wrapAs (s : Store) (v : Value) (typeNames : List String) :
    (s.after (wrapAs v typeNames)).objects.size = s.objects.size + 1 :=
  Array.size_push _

theorem object?_wrapAs (v : Value) (typeNames : List String) {k : ObjectId}
    (hk : k.index < s.objects.size) : (s.after (wrapAs v typeNames)).object? k = s.object? k :=
  (Array.getElem?_push_lt hk).trans (Array.getElem?_eq_getElem hk).symm

theorem object?_wrapAs_cases {v : Value} {typeNames : List String} {k : ObjectId}
    (hk : (s.after (wrapAs v typeNames)).object? k = some state) :
    s.object? k = some state ∨
      k = ⟨s.objects.size⟩ ∧ state = ⟨⟨s.cells.size⟩, typeNames, ⟨s.lists.size⟩, true⟩ := by
  have hpush : (s.objects.push ⟨⟨s.cells.size⟩, typeNames, ⟨s.lists.size⟩, true⟩)[k.index]? =
      some state := hk
  rw [Array.getElem?_push] at hpush
  split at hpush
  next hindex =>
    cases hpush
    exact .inr ⟨congrArg ObjectId.mk hindex, rfl⟩
  next => exact .inl hpush

/-- An object is made after its base value and its list. -/
theorem Onward.wrapAs (s : Store) (v : Value) (typeNames : List String) :
    ((s.after (addCell v)).after (addList .empty)).Onward (s.after (wrapAs v typeNames)) := by
  refine ⟨fun {p} => by cases p <;> exact id, ?_, fun {k} hk h => ?_⟩
  · exact Nat.le_trans (Nat.le_succ _) (Nat.le_of_eq (size_objects_wrapAs s v typeNames).symm)
  · rwa [isAlive, object?_wrapAs (s := s) v typeNames hk] at h

theorem insertTypeName_cases (s : Store) (o : ObjectId) (name : String) :
    s.insertTypeName o name = s ∨ ∃ old state, s.object? o = some old ∧ old.Becomes state ∧
      s.insertTypeName o name = s.setObject o state := by
  unfold insertTypeName
  split
  · exact .inl rfl
  next old ho =>
    split
    · exact .inl rfl
    · exact .inr ⟨old, { old with typeNames := name :: old.typeNames }, ho, ⟨rfl, rfl, id⟩, rfl⟩

theorem release_cases (s : Store) (o : ObjectId) :
    s.release o = s ∨ ∃ old state, s.object? o = some old ∧ old.Becomes state ∧
      s.release o = s.setObject o state := by
  unfold release
  split
  · exact .inl rfl
  next old ho => exact .inr ⟨old, { old with alive := false }, ho, ⟨rfl, rfl, by simp⟩, rfl⟩

theorem Onward.setScript (s : Store) (i : ScriptId) (script : Script) :
    s.Onward (s.setScript i script) :=
  .of_same (fun {p} hp => by
    cases p with
    | script k => simpa [Has, Store.setScript] using hp
    | _ => exact hp) rfl

end Store

namespace Store.Sound

variable {Γ : Ledger} {s t : Store}

theorem levels_of_same (hs : s.Sound Γ) (ht : s.Onward t)
    (hlists : ∀ l, (t.list l).members ⊆ (s.list l).members) :
    ∀ l, ∀ m ∈ (t.list l).members, ∃ levels, t.Grounded levels m := by
  intro l m hm
  obtain ⟨levels, hlevels⟩ := hs.levels l m (hlists l hm)
  exact ⟨levels, hlevels.of_subset ht.has fun k _ => hlists k⟩

theorem frame (hs : s.Sound Γ) (hcells : t.cells = s.cells) (hlists : t.lists = s.lists)
    (hscripts : t.scripts = s.scripts) (hobjects : t.objects = s.objects)
    (hmade : s.made ≤ t.made) (htypes : t.types = s.types)
    (hshelf : ∀ v ∈ t.shelf, v ∈ s.shelf ∨ s.Vouches Γ v) : t.Sound Γ := by
  have hhas {p : Part} : s.Has p → t.Has p :=
    (Keeps.of_same (P := fun _ => True) hcells hlists (Nat.le_of_eq (by rw [hscripts]))
      hmade).has trivial
  have ht : s.Onward t := .of_same hhas hobjects
  have hlist (l : ListId) : t.list l = s.list l := by rw [list, list, hlists]
  refine hs.later ht (fun c => .inl ?_) (fun v hv => (hshelf v hv).imp id (·.onward ht))
    (fun l m hm => .inl (hlist l ▸ hm)) (hs.levels_of_same ht fun l m hm => hlist l ▸ hm) htypes
    (fun o state ho => .inl ⟨state, ?_, rfl, rfl⟩) (fun i block _ => .inl ?_)
  · rw [cell, cell, hcells]
  · rwa [object?, hobjects] at ho
  · rw [script, script, hscripts]

theorem nextMemberId (hs : s.Sound Γ) : (s.after Store.nextMemberId).Sound Γ :=
  hs.frame rfl rfl rfl rfl (Nat.le_succ s.made) rfl fun _ => .inl

theorem addCell (hs : s.Sound Γ) {v : Value} (hv : s.Vouches Γ v) :
    (s.after (Store.addCell v)).Sound Γ := by
  have ht := Onward.of_enlarges (enlarges_addCell v s)
  refine hs.later ht (fun c => ?_) (fun _ => .inl) (fun _ _ => .inl)
    (hs.levels_of_same ht fun _ _ => id) rfl
    (fun o state ho => .inl ⟨state, ho, rfl, rfl⟩) (fun _ _ _ => .inl rfl)
  by_cases hc : s.Has (.cell c)
  · exact .inl ((enlarges_addCell v s).cell hc)
  · refine .inr ?_
    have hcell : (s.after (Store.addCell v)).cell c = v ∨
        (s.after (Store.addCell v)).cell c = .null := by
      show (s.cells.push v)[c.index]?.getD .null = v ∨ (s.cells.push v)[c.index]?.getD .null = .null
      rw [Array.getElem?_push]
      split
      · exact .inl rfl
      · exact .inr (by rw [Array.getElem?_eq_none (Nat.le_of_not_lt hc)]; rfl)
    rcases hcell with hcell | hcell
    · rw [hcell]
      exact hv.onward ht
    · rw [hcell]
      simp [Vouches, Value.members]

theorem addList (hs : s.Sound Γ) {members : MemberList}
    (hm : ∀ m ∈ members.members, (Γ (.list ⟨s.lists.size⟩)).Admits Γ s m) :
    (s.after (Store.addList members)).Sound Γ := by
  have ht := Onward.of_enlarges (enlarges_addList members s)
  have hlist (l : ListId) (m : Member)
      (h : m ∈ ((s.after (Store.addList members)).list l).members) :
      m ∈ (s.list l).members ∨ l = ⟨s.lists.size⟩ ∧ m ∈ members.members := by
    by_cases hl : s.Has (.list l)
    · rw [(enlarges_addList members s).list hl] at h
      exact .inl h
    · have hthere : l.index < s.lists.size + 1 := by
        rw [← size_addList s members]
        exact has_of_mem_list h
      obtain rfl : l = ⟨s.lists.size⟩ := by
        cases l
        simp only [Has, Nat.not_lt, ListId.mk.injEq] at hl hthere ⊢
        omega
      rw [list_addList_self] at h
      exact .inr ⟨rfl, h⟩
  refine hs.later ht (fun _ => .inl rfl) (fun _ => .inl) (fun l m h => ?_) (fun l m h => ?_) rfl
    (fun o state ho => .inl ⟨state, ho, rfl, rfl⟩) (fun _ _ _ => .inl rfl)
  · rcases hlist l m h with hold | ⟨rfl, hnew⟩
    · exact .inl hold
    · exact .inr ((hm m hnew).onward ht)
  · obtain ⟨levels, hlevels⟩ : ∃ levels, s.Grounded levels m := by
      rcases hlist l m h with hold | ⟨-, hnew⟩
      · exact hs.levels l m hold
      · obtain ⟨h, hfits⟩ := (hm m hnew).exists_fits
        exact hs.grounded hfits.kind
    exact ⟨levels, hlevels.enlarge (enlarges_addList members s)⟩

theorem setCell (hs : s.Sound Γ) (c : CellId) {v : Value} (hv : s.Vouches Γ v) :
    (s.setCell c v).Sound Γ := by
  have ht : s.Onward (s.setCell c v) := .of_same has_setCell.mpr rfl
  refine hs.later ht (fun k => ?_) (fun _ => .inl) (fun _ _ => .inl)
    (hs.levels_of_same ht fun _ _ => id) rfl
    (fun o state ho => .inl ⟨state, ho, rfl, rfl⟩) (fun _ _ _ => .inl rfl)
  rw [cell, Store.setCell, Array.getElem?_setIfInBounds]
  split
  · split
    · exact .inr (hv.onward ht)
    · exact .inr (by simp [Vouches, Value.members])
  · exact .inl rfl

/-- A list that changes has members that it had, and others that are not nested in it. -/
theorem setList {n : Nat} (hs : s.Sound Γ) {l : ListId} {members : MemberList}
    (hm : ∀ m ∈ members.members, m ∈ (s.list l).members ∨
      (Γ (.list l)).Admits Γ s m ∧ (s.setList l members).Grounded n m) :
    (s.setList l members).Sound Γ := by
  have ht : s.Onward (s.setList l members) := .of_same has_setList.mpr rfl
  have hlist (k : ListId) (m : Member) (h : m ∈ ((s.setList l members).list k).members) :
      m ∈ (s.list k).members ∨
        (Γ (.list k)).Admits Γ s m ∧ (s.setList l members).Grounded n m := by
    by_cases hk : k = l
    · subst hk
      have hthere : k.index < s.lists.size := has_setList.mp (has_of_mem_list h)
      rw [list_setList_self members hthere] at h
      exact hm m h
    · rw [list_setList_of_ne hk] at h
      exact .inl h
  refine hs.later ht (fun _ => .inl rfl) (fun _ => .inl)
    (fun k m h => (hlist k m h).imp_right (·.1.onward ht)) (fun k m h => ?_) rfl
    (fun o state ho => .inl ⟨state, ho, rfl, rfl⟩) (fun _ _ _ => .inl rfl)
  rcases hlist k m h with hold | hnew
  · obtain ⟨levels, hlevels⟩ := hs.levels k m hold
    exact ⟨levels + n, hlevels.extend ht.has fun k _ nested hnested =>
      (hlist k nested hnested).imp_right (·.2)⟩
  · exact ⟨n, hnew.2⟩

/-! ## Scripts, objects and types -/

theorem addScript (hs : s.Sound Γ) {added : Script}
    (h : ∀ block, added.blocks.template = some block → block = ⟨added.text, 0⟩) :
    ({ s with scripts := s.scripts.push added } : Store).Sound Γ := by
  have ht : s.Onward { s with scripts := s.scripts.push added } :=
    .of_same (fun {p} hp => by
      cases p with
      | script i => exact Nat.lt_of_lt_of_eq (Nat.lt_succ_of_lt hp) (Array.size_push _).symm
      | _ => exact hp) rfl
  refine hs.later ht (fun _ => .inl rfl) (fun _ => .inl) (fun _ _ => .inl)
    (hs.levels_of_same ht fun _ _ => id) rfl (fun o state ho => .inl ⟨state, ho, rfl, rfl⟩)
    (fun i block hblock => ?_)
  have hscript : (Store.script { s with scripts := s.scripts.push added } i = s.script i) ∨
      Store.script { s with scripts := s.scripts.push added } i = added := by
    rw [script, script, Array.getElem?_push]
    split
    · exact .inr rfl
    · exact .inl rfl
  rcases hscript with hold | hnew
  · exact .inl hold
  · rw [hnew] at hblock ⊢
    exact .inr (h block hblock)

theorem setScript (hs : s.Sound Γ) (i : ScriptId) {changed : Script}
    (h : ∀ block, changed.blocks.template = some block → block = ⟨changed.text, 0⟩) :
    (s.setScript i changed).Sound Γ := by
  have ht := Onward.setScript s i changed
  refine hs.later ht (fun _ => .inl rfl) (fun _ => .inl) (fun _ _ => .inl)
    (hs.levels_of_same ht fun _ _ => id) rfl (fun o state ho => .inl ⟨state, ho, rfl, rfl⟩)
    (fun k block hblock => ?_)
  by_cases hk : i.index = k.index
  · by_cases hi : i.index < s.scripts.size
    · have hscript : (s.setScript i changed).script k = changed := by
        simp [script, Store.setScript, ← hk, hi]
      rw [hscript] at hblock ⊢
      exact .inr (h block hblock)
    · refine .inl ?_
      simp [script, Store.setScript, ← hk, Array.setIfInBounds, hi]
  · exact .inl (by simp [script, Store.setScript, hk])

theorem setObject (hs : s.Sound Γ) {o : ObjectId} {old state : ObjectState}
    (ho : s.object? o = some old) (hstate : old.Becomes state) :
    (s.setObject o state).Sound Γ := by
  have ht := Onward.setObject ho hstate
  refine hs.later ht (fun _ => .inl rfl) (fun _ => .inl) (fun _ _ => .inl)
    (hs.levels_of_same ht fun _ _ => id) rfl (fun k new hk => .inl ?_) (fun _ _ _ => .inl rfl)
  rw [object?_setObject ho] at hk
  by_cases hsame : k = o
  · subst hsame
    obtain rfl : state = new := by simpa using hk
    exact ⟨old, ho, hstate.base.symm, hstate.members.symm⟩
  · exact ⟨new, by simpa [hsame] using hk, rfl, rfl⟩

theorem wrapAs (hs : s.Sound Γ) {v : Value} (hv : s.Vouches Γ v)
    (hbase : Γ (.cell ⟨s.cells.size⟩) = .base ⟨s.objects.size⟩)
    (hmembers : Γ (.list ⟨s.lists.size⟩) = .base ⟨s.objects.size⟩)
    (typeNames : List String) : (s.after (Store.wrapAs v typeNames)).Sound Γ := by
  have hmade : ((s.after (Store.addCell v)).after (Store.addList .empty)).Sound Γ :=
    (hs.addCell hv).addList (by simp [MemberList.members, MemberList.empty])
  have hcell : ((s.after (Store.addCell v)).after (Store.addList .empty)).Has
      (.cell ⟨s.cells.size⟩) := has_addCell_self s v
  have hlist : ((s.after (Store.addCell v)).after (Store.addList .empty)).Has
      (.list ⟨s.lists.size⟩) := has_addList_self (s.after (Store.addCell v)) .empty
  have ht := Onward.wrapAs s v typeNames
  refine hmade.later ht (fun _ => .inl rfl) (fun _ => .inl) (fun _ _ => .inl)
    (hmade.levels_of_same ht fun _ _ => id) rfl (fun k new hk => ?_) (fun _ _ _ => .inl rfl)
  rcases object?_wrapAs_cases hk with hold | ⟨rfl, rfl⟩
  · exact .inl ⟨new, hold, rfl, rfl⟩
  · exact .inr ⟨⟨ht.has hcell, hbase⟩, ht.has hlist, hmembers⟩

theorem setTypes (hs : s.Sound Γ) {types : TypeTable}
    (h : ∀ entry ∈ types, ∀ m ∈ entry.2.members, m.Template Γ s) :
    ({ s with types := types } : Store).Sound Γ := by
  have ht : s.Onward { s with types := types } :=
    .of_same (fun {p} hp => by cases p <;> exact hp) rfl
  refine { hs with
    cells := fun c => (hs.cells c).onward ht
    shelf := fun v hv => (hs.shelf v hv).onward ht
    lists := fun l m hm => (hs.lists l m hm).onward ht
    levels := hs.levels_of_same ht fun _ _ => id
    types := fun entry hentry m hm => (h entry hentry m hm).onward ht
    objects := fun o state ho => ?_ }
  obtain ⟨⟨hcell, hbase⟩, hlist, howned⟩ := hs.objects o state ho
  exact ⟨⟨ht.has hcell, hbase⟩, ht.has hlist, howned⟩

end Store.Sound

/-! ## Copies -/

section

variable {Γ : Ledger} {s t : Store} {h : Holder} {owner : Option ObjectId} {m other : Member}

/-- A copy has its parts for its owner if all new parts are for the owner. -/
theorem Store.FreshCopy.genuine (hcopy : s.FreshCopy t owner m other) (hm : m.kind.Fits Γ s h)
    (hΓ : Γ.Awaits s (.owned owner)) (ho : ∀ o ∈ owner, o.index < s.objects.size)
    (ht : s.Onward t) : other.Genuine Γ t := by
  refine .own ?_
  have hfits (p : Part) (hp : p ∈ other.own) : t.Has p ∧ Γ p = .owned other.owner := by
    rw [hcopy.owner]
    exact ⟨(hcopy.fresh p hp).2, hΓ p (hcopy.fresh p hp).1⟩
  refine ⟨⟨fun p hp => hfits p (Member.mem_own_of_kind hp), fun c hc => ?_,
    fun script hscript => ?_⟩, ?_, fun o hown => ?_⟩
  · rw [MemberKind.sharedCell?_of_form hcopy.form] at hc
    obtain ⟨hthere, hborrows⟩ := (hm.onward ht).shared c hc
    exact ⟨hthere, hborrows.of_form hcopy.form⟩
  · rw [MemberKind.scripts_of_form hcopy.form] at hscript
    obtain ⟨hthere, hcopies, -⟩ := (hm.onward ht).scripts script hscript
    exact ⟨hthere, hcopies, nofun⟩
  · obtain ⟨serial, hid⟩ := hcopy.made
    rw [hid]
    exact hfits _ (by simp [Member.own, Member.serial?, hid])
  · rw [hcopy.owner] at hown
    exact Nat.lt_of_lt_of_le (ho o hown) ht.objects

end

namespace Store.Sound

variable {Γ : Ledger} {s : Store} {owner : Option ObjectId}

section

variable {depth levels : Nat}
  (hcopy : ∀ {s : Store} {m : Member} {h : Holder}, s.Sound Γ → Γ.Awaits s (.owned owner) →
    (∀ o ∈ owner, o.index < s.objects.size) → m.kind.Fits Γ s h → s.Grounded levels m →
    (s.after (copyWithin owner depth m)).Sound Γ)
  (hmake : ∀ {s : Store} {m : Member}, s.Grounded levels m →
    s.DeepCopy (s.after (copyWithin owner depth m)) owner levels m
      ((copyWithin owner depth m).run s).1)
include hcopy hmake

theorem copyList (hs : s.Sound Γ) (hΓ : Γ.Awaits s (.owned owner))
    (ho : ∀ o ∈ owner, o.index < s.objects.size) {l : ListId}
    (hnested : ∀ nested ∈ (s.list l).members, s.Grounded levels nested) :
    (s.after (Store.copyList (copyWithin owner depth) l)).Sound Γ := by
  have hgrounded : ∀ entry ∈ (s.list l).entries, s.Grounded levels entry.2 :=
    fun entry hentry => hnested entry.2 (List.mem_map_of_mem hentry)
  have hfits : ∀ entry ∈ (s.list l).entries, ∃ h, entry.2.kind.Fits Γ s h := fun entry hentry =>
    have ⟨h, hfits⟩ := (hs.lists l entry.2 (List.mem_map_of_mem hentry)).exists_fits
    ⟨h, hfits.kind⟩
  obtain ⟨copies, u, hrun, hu, hcopies⟩ := deepCopy_entries hmake hgrounded
  obtain ⟨⟨hsound, -⟩, -⟩ := mapM_along (R := Enlarges) (P := fun t => t.Sound Γ ∧ s.Enlarges t)
    (Q := fun _ _ _ => True) (l := (s.list l).entries)
    (f := fun entry : String × Member => do return (entry.1, ← copyWithin owner depth entry.2))
    (fun entry hentry t ⟨ht, hst⟩ =>
      have hmade : t.Enlarges (t.after (copyWithin owner depth entry.2)) :=
        enlarges_copyWithin owner depth entry.2 t
      have ⟨h, hfits⟩ := hfits entry hentry
      ⟨⟨hcopy ht (hΓ.onward (.of_enlarges hst)) (fun o hown => by rw [hst.objects]; exact ho o hown)
        (hfits.onward (.of_enlarges hst)) ((hgrounded entry hentry).enlarge hst),
        Coherent.trans hst hmade⟩, hmade, trivial⟩)
    (fun _ _ _ _ _ _ _ => trivial) ⟨hs, Coherent.refl s⟩
  rw [after, hrun] at hsound
  rw [after, run_copyList hrun]
  refine hsound.addList fun other hother => ?_
  obtain ⟨entry', hentry', rfl⟩ := List.mem_map.mp hother
  obtain ⟨entry, hentry, -, hdeep⟩ := exists_mem_of_forall₂ hcopies hentry'
  obtain ⟨h, hfits⟩ := hfits entry hentry
  rw [hΓ _ fun hold => Nat.lt_irrefl _ (hu.has hold)]
  have hgenuine := hdeep.freshCopy.genuine hfits hΓ ho (.of_enlarges hu)
  refine ⟨hgenuine, fun o hown => ⟨?_, fun _ => .inl ?_⟩⟩
  · rw [hu.objects]
    exact ho o hown
  · rw [hdeep.freshCopy.owner]
    exact hown

end

theorem copyKind (hs : s.Sound Γ) {copy : Member → StateM Store Member} {kind : MemberKind}
    (hlist : ∀ l ∈ kind.list?, (s.after (Store.copyList copy l)).Sound Γ) :
    (s.after (Store.copyKind copy kind)).Sound Γ := by
  rcases copyKind_cases copy kind s with
    ⟨c, copied, -, -, -, hrun⟩ | ⟨l, copied, -, hl, -, hrun⟩ | ⟨-, -, hrun⟩
  · rw [after, hrun]
    exact hs.addCell (hs.cells c)
  · rw [after, hrun]
    exact hlist l hl
  · rw [after, hrun]
    exact hs

theorem copyWithin {levels : Nat} {m : Member} {h : Holder} (hs : s.Sound Γ)
    (hΓ : Γ.Awaits s (.owned owner)) (ho : ∀ o ∈ owner, o.index < s.objects.size)
    (hm : m.kind.Fits Γ s h) (hlevels : s.Grounded levels m) :
    (s.after (Store.copyWithin owner (levels + 1) m)).Sound Γ := by
  induction levels generalizing s m h with
  | zero => exact (hs.copyKind (by simp [hlevels.2])).nextMemberId
  | succ levels ih =>
    exact (hs.copyKind fun l hl =>
      hs.copyList ih (deepCopy_copyWithin owner) hΓ ho (hlevels.2 l hl)).nextMemberId

/-- A copy takes parts for its owner, and the rest is as it was. -/
theorem copyFor {m : Member} {h : Holder} (hs : s.Sound Γ) (hΓ : Γ.Awaits s (.owned owner))
    (ho : ∀ o ∈ owner, o.index < s.objects.size) (hm : m.kind.Fits Γ s h) :
    ∃ copy t, (Store.copyFor owner m).run s = (copy, t) ∧ s.Enlarges t ∧ t.Sound Γ ∧
      copy.Genuine Γ t ∧ s.DeepCopy t owner s.lists.size m copy := by
  obtain ⟨levels, hlevels⟩ := hs.grounded hm
  have ht := enlarges_copyFor owner m s
  have hdeep := deepCopy_copyFor owner hlevels
  have hrun : (Store.copyFor owner m).run s =
      (Store.copyWithin owner (s.lists.size + 1) m).run s := rfl
  have hsound : (s.after (Store.copyFor owner m)).Sound Γ := by
    rw [after, hrun]
    exact hs.copyWithin hΓ ho hm hlevels.bounded
  exact ⟨_, _, rfl, ht, hsound, hdeep.freshCopy.genuine hm hΓ ho (.of_enlarges ht), hdeep⟩

end Store.Sound

end DynamicMembers
