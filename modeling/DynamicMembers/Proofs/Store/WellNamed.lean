import DynamicMembers.Proofs.Store.Copies

/-! # Names in stored lists

In every reachable store a list has its members under their own names, whatever the
spelling, and none of them under a reserved one. That holds of the lists of objects
and member sets and of what is declared for types (`Store.Reachable.wellNamed`).

A replaced member leaves its spelling behind as the key of the entry, and a copied
list keeps the keys of the list it was copied from; so what is kept is that key and
name are the same without regard to case.
-/
namespace DynamicMembers

/-- The members of the list stand under their own names, and none has a reserved one. -/
structure MemberList.WellNamed (l : MemberList) : Prop where
  keyed : ∀ entry ∈ l.entries, sameName entry.1 entry.2.name = true
  unreserved : ∀ entry ∈ l.entries, isReservedName entry.2.name = false

/-- All lists of the store and of its declarations are well-named. -/
structure Store.WellNamed (s : Store) : Prop where
  lists : ∀ l, (s.list l).WellNamed
  types : ∀ entry ∈ s.types, entry.2.WellNamed

theorem NameMap.mem_insert {α : Type} {name : String} {a : α} {m : NameMap α} {entry : String × α}
    (h : entry ∈ NameMap.insert name a m) :
    entry ∈ m ∨ (sameName entry.1 name = true ∧ entry.2 = a) := by
  induction m with
  | nil =>
    obtain rfl : entry = (name, a) := by simpa [NameMap.insert] using h
    exact .inr ⟨sameName_refl name, rfl⟩
  | cons first rest ih =>
    by_cases hkey : sameName first.1 name = true
    · rw [NameMap.insert, if_pos hkey] at h
      rcases List.mem_cons.mp h with rfl | h
      · exact .inr ⟨hkey, rfl⟩
      · exact .inl (List.mem_cons_of_mem _ h)
    · rw [NameMap.insert, if_neg hkey] at h
      rcases List.mem_cons.mp h with rfl | h
      · exact .inl List.mem_cons_self
      · exact (ih h).imp_left (List.mem_cons_of_mem _)

/-! ## Lists -/

namespace MemberList

theorem wellNamed_empty : empty.WellNamed := ⟨by simp [empty], by simp [empty]⟩

namespace WellNamed

variable {l l' : MemberList}

theorem unreserved_of_mem (hl : l.WellNamed) {m : Member} (hm : m ∈ l.members) :
    isReservedName m.name = false := by
  obtain ⟨entry, hentry, rfl⟩ := List.mem_map.mp hm
  exact hl.unreserved entry hentry

theorem add {m : Member} {vouched : Bool} {replaced : Option Member} (hl : l.WellNamed)
    (h : l.add m vouched = .ok (replaced, l')) : l'.WellNamed := by
  unfold MemberList.add at h
  split at h
  · cases h
  · rename_i hname
    split at h
    · cases h
    · cases h
      refine ⟨fun entry hentry => ?_, fun entry hentry => ?_⟩
      · rcases NameMap.mem_insert hentry with hold | ⟨hkey, hmember⟩
        · exact hl.keyed entry hold
        · rw [hmember]
          exact hkey
      · rcases NameMap.mem_insert hentry with hold | ⟨-, hmember⟩
        · exact hl.unreserved entry hold
        · rw [hmember]
          simpa using hname

theorem remove {name : String} {removed : Option Member} (hl : l.WellNamed)
    (h : l.remove name = .ok (removed, l')) : l'.WellNamed := by
  unfold MemberList.remove at h
  split at h
  · cases h
  · cases h
    exact ⟨fun entry hentry => hl.keyed entry (NameMap.mem_of_mem_erase hentry),
      fun entry hentry => hl.unreserved entry (NameMap.mem_of_mem_erase hentry)⟩

theorem addAll {members : List Member} (hl : l.WellNamed) (h : l.addAll members = .ok l') :
    l'.WellNamed := by
  induction members generalizing l with
  | nil =>
    cases h
    exact hl
  | cons m rest ih =>
    cases hadd : l.add m false with
    | error refusal =>
      simp [MemberList.addAll, hadd, bind, Except.bind] at h
    | ok added =>
      obtain ⟨replaced, middle⟩ := added
      exact ih (hl.add hadd) (by simpa [MemberList.addAll, hadd, bind, Except.bind] using h)

end WellNamed

theorem wellNamed_ofMembers {members : List Member} {l : MemberList}
    (h : ofMembers members = .ok l) : l.WellNamed :=
  wellNamed_empty.addAll h

end MemberList

theorem TypeTable.wellNamed_lookup {table : TypeTable} (ht : ∀ entry ∈ table, entry.2.WellNamed)
    (typeName : String) : ((NameMap.lookup typeName table).getD .empty).WellNamed := by
  rw [NameMap.lookup_eq_find?]
  cases hfind : table.find? fun entry => sameName entry.1 typeName with
  | none => exact MemberList.wellNamed_empty
  | some entry => exact ht entry (List.mem_of_find?_eq_some hfind)

/-- A member is declared by putting its template into the list of the type. -/
theorem TypeTable.add_of_declare {table types : TypeTable} {typeName : String} {m : Member}
    (h : table.declare typeName m = .ok types) : ∃ replaced l,
      ((NameMap.lookup typeName table).getD .empty).add (m.setFlag .attached false) true =
        .ok (replaced, l) ∧ types = NameMap.insert typeName l table := by
  unfold TypeTable.declare at h
  split at h
  · cases h
  · cases hadd : ((NameMap.lookup typeName table).getD .empty).add (m.setFlag .attached false)
        true with
    | error refusal => simp [hadd, bind, Except.bind] at h
    | ok added =>
      simp only [hadd, bind, Except.bind, Except.ok.injEq] at h
      exact ⟨added.1, added.2, rfl, h.symm⟩

theorem TypeTable.wellNamed_of_declare {table types : TypeTable} {typeName : String} {m : Member}
    (ht : ∀ entry ∈ table, entry.2.WellNamed) (h : table.declare typeName m = .ok types) :
    ∀ entry ∈ types, entry.2.WellNamed := by
  obtain ⟨replaced, l, hadd, rfl⟩ := add_of_declare h
  intro entry hentry
  rcases NameMap.mem_insert hentry with hold | ⟨-, hnew⟩
  · exact ht entry hold
  · rw [hnew]
    exact (wellNamed_lookup ht typeName).add hadd

/-! ## Writes that touch no list, and writes of one list -/

namespace Store

variable {Q : MemberList → Prop} {s : Store} {members : MemberList}

theorem forall_list_setList (hempty : Q .empty) (hs : ∀ k, Q (s.list k)) (l : ListId)
    (hm : Q members) : ∀ k, Q ((s.setList l members).list k) := by
  intro k
  rw [Store.list, Store.setList, Array.getElem?_setIfInBounds]
  split
  · split
    · exact hm
    · exact hempty
  · exact hs k

theorem forall_list_addList (hs : ∀ k, Q (s.list k)) (hm : Q members) :
    ∀ k, Q ((s.after (Store.addList members)).list k) := by
  intro k
  show Q ((s.lists.push members)[k.index]?.getD .empty)
  rw [Array.getElem?_push]
  split
  · exact hm
  · exact hs k

end Store

namespace Store.WellNamed

variable {s t : Store}

theorem initial (shelf : Array Value) : (Store.initial shelf).WellNamed :=
  ⟨fun _ => MemberList.wellNamed_empty, by simp [Store.initial, Store.empty]⟩

theorem frame (hs : s.WellNamed) (hlists : t.lists = s.lists) (htypes : t.types = s.types) :
    t.WellNamed := by
  refine ⟨fun l => ?_, by rw [htypes]; exact hs.types⟩
  rw [Store.list, hlists]
  exact hs.lists l

theorem setList {members : MemberList} (hs : s.WellNamed) (l : ListId) (hm : members.WellNamed) :
    (s.setList l members).WellNamed :=
  ⟨forall_list_setList MemberList.wellNamed_empty hs.lists l hm, hs.types⟩

theorem addList {members : MemberList} (hs : s.WellNamed) (hm : members.WellNamed) :
    (s.after (Store.addList members)).WellNamed :=
  ⟨forall_list_addList hs.lists hm, hs.types⟩

theorem addToList (hs : s.WellNamed) (l : ListId) (m : Member) (vouched : Bool) :
    (s.after (Store.addToList l m vouched).run).WellNamed := by
  rw [Store.addToList, after_read_then]
  split
  · exact hs
  · rename_i replaced members hadd
    exact hs.setList l ((hs.lists l).add hadd)

theorem removeFromList (hs : s.WellNamed) (l : ListId) (name : String) :
    (s.after (Store.removeFromList l name).run).WellNamed := by
  rw [Store.removeFromList, after_read_then]
  split
  · exact hs
  · rename_i removed members hremove
    exact hs.setList l ((hs.lists l).remove hremove)

theorem declare (hs : s.WellNamed) (typeName : String) (m : Member) :
    (s.after (Store.declare typeName m).run).WellNamed := by
  rw [Store.declare, after_read_then]
  split
  · exact hs
  · rename_i types hdeclare
    exact ⟨hs.lists, TypeTable.wellNamed_of_declare hs.types hdeclare⟩

theorem declareType (hs : s.WellNamed) (name : String) :
    ({ s with types := s.types.declareType name } : Store).WellNamed := by
  refine ⟨hs.lists, fun entry hentry => ?_⟩
  unfold TypeTable.declareType at hentry
  split at hentry
  · exact hs.types entry hentry
  · rcases NameMap.mem_insert hentry with hold | ⟨-, hnew⟩
    · exact hs.types entry hold
    · rw [hnew]
      exact MemberList.wellNamed_empty

theorem wrapAs (hs : s.WellNamed) (v : Value) (typeNames : List String) :
    (s.after (Store.wrapAs v typeNames)).WellNamed :=
  (frame (t := s.after (Store.addCell v)) hs rfl rfl).addList MemberList.wellNamed_empty
    |>.frame rfl rfl

/-! ## Copies -/

theorem copyFor (hs : s.WellNamed) (owner : Option ObjectId) (m : Member) :
    (s.after (Store.copyFor owner m)).WellNamed := by
  refine invariant_copyFor (I := Store.WellNamed) (fun _ hs => hs.frame rfl rfl)
    (fun hs => hs.frame rfl rfl) (fun {s t l owner copies} hs ht hcopies => ?_) owner m hs
  refine ht.addList ⟨fun other hother => ?_, fun other hother => ?_⟩
  all_goals
    obtain ⟨entry, hentry, hkey, hcopy⟩ := exists_mem_of_forall₂ hcopies hother
    rw [hcopy.name]
  · rw [hkey]
    exact (hs.lists l).keyed entry hentry
  · exact (hs.lists l).unreserved entry hentry

theorem step (hs : s.WellNamed) (h : Step s t) : t.WellNamed := by
  cases h with
  | addToList l m vouched => exact hs.addToList l m vouched
  | removeFromList l name => exact hs.removeFromList l name
  | addList h => exact hs.addList (MemberList.wellNamed_ofMembers h)
  | copyFor owner m => exact hs.copyFor owner m
  | wrapAs v typeNames => exact hs.wrapAs v typeNames
  | declareType name => exact hs.declareType name
  | declare typeName m => exact hs.declare typeName m
  | insertTypeName o name =>
    unfold Store.insertTypeName
    split
    · exact hs
    · split
      · exact hs
      · exact hs.frame rfl rfl
  | release o =>
    unfold Store.release
    split
    · exact hs
    · exact hs.frame rfl rfl
  | addCell | setCell | setShelf | nextMemberId | addScript | setScript | logMode | takeModes
  | announce | takeAnnounced => exact hs.frame rfl rfl

end Store.WellNamed

/-- Reachable stores are well-named. -/
theorem Store.Reachable.wellNamed {s : Store} (hs : s.Reachable) : s.WellNamed :=
  hs.invariant Store.WellNamed.initial fun hstep h => h.step hstep

end DynamicMembers
