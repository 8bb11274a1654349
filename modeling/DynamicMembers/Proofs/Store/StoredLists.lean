import DynamicMembers.Proofs.Store.ListChanges
import DynamicMembers.Proofs.Store.Parts

/-! # What holds of every stored list

A list in the store begins empty, or as the list that a member set was made of, or as a
copy of another; after that members are added and removed. What these keep holds of every
list of a reachable store (`Store.Reachable.forall_list`). So every list has its members
under their own names, each name once, in every reachable store.

The table of the types begins empty and is changed by declarations, and by nothing else
(`Store.Reachable.types_of_lasts`).
-/
namespace DynamicMembers

/-- What is true of the empty list and stays true whatever is done to a list. -/
structure MemberList.Lasts (Q : MemberList → Prop) : Prop where
  empty : Q .empty
  add : ∀ {l l' : MemberList} {m : Member} {vouched : Bool} {replaced : Option Member},
    Q l → l.add m vouched = .ok (replaced, l') → Q l'
  remove : ∀ {l l' : MemberList} {name : String} {removed : Option Member},
    Q l → l.remove name = .ok (removed, l') → Q l'
  copied : ∀ {l : MemberList} {owner : Option ObjectId} {copies : NameMap Member},
    Q l → NameMap.Copied owner l.entries copies → Q ⟨copies, l.hiddenCount⟩

namespace MemberList.Lasts

variable {Q : MemberList → Prop} {s t : Store}

theorem addAll (hQ : Lasts Q) {members : List Member} {l l' : MemberList} (hl : Q l)
    (h : l.addAll members = .ok l') : Q l' := by
  induction members generalizing l with
  | nil =>
    cases h
    exact hl
  | cons m rest ih =>
    cases hadd : l.add m false with
    | error refusal => simp [MemberList.addAll, hadd, bind, Except.bind] at h
    | ok added =>
      obtain ⟨replaced, middle⟩ := added
      exact ih (hQ.add hl hadd) (by simpa [MemberList.addAll, hadd, bind, Except.bind] using h)

theorem setList (hQ : Lasts Q) (hs : ∀ l, Q (s.list l)) (l : ListId) {members : MemberList}
    (hm : Q members) : ∀ k, Q ((s.setList l members).list k) :=
  Store.forall_list_setList hQ.empty hs l hm

/-- The entries are copied one after another, and no list is changed by that; then there is one
list more. -/
theorem copyFor (hQ : Lasts Q) (owner : Option ObjectId) (m : Member) (hs : ∀ l, Q (s.list l)) :
    ∀ l, Q ((s.after (Store.copyFor owner m)).list l) :=
  Store.invariant_copyFor (I := fun s => ∀ l, Q (s.list l)) (fun _ hs => hs) (fun hs => hs)
    (fun hs ht hcopies => Store.forall_list_addList ht (hQ.copied (hs _) hcopies)) owner m hs

theorem step (hQ : Lasts Q) (hs : ∀ l, Q (s.list l)) (h : Store.Step s t) :
    ∀ l, Q (t.list l) := by
  cases h with
  | addToList l m vouched =>
    rw [Store.addToList, Store.after_read_then]
    split
    · exact hs
    · rename_i replaced members hadd
      exact hQ.setList hs l (hQ.add (hs l) hadd)
  | removeFromList l name =>
    rw [Store.removeFromList, Store.after_read_then]
    split
    · exact hs
    · rename_i removed members hremove
      exact hQ.setList hs l (hQ.remove (hs l) hremove)
  | addList h => exact Store.forall_list_addList hs (hQ.addAll hQ.empty h)
  | copyFor owner m => exact hQ.copyFor owner m hs
  | wrapAs v typeNames =>
    exact Store.forall_list_addList (s := s.after (Store.addCell v)) hs hQ.empty
  | declare typeName m =>
    rw [Store.declare, Store.after_read_then]
    split <;> exact hs
  | insertTypeName o name =>
    unfold Store.insertTypeName
    split
    · exact hs
    · split <;> exact hs
  | release o =>
    unfold Store.release
    split <;> exact hs
  | addCell | setCell | setShelf | nextMemberId | addScript | setScript | logMode | takeModes
  | announce | takeAnnounced | declareType => exact hs

end MemberList.Lasts

theorem MemberList.lasts_refines : Lasts fun l => l.Refines l.members where
  empty := .empty
  add hl h := by
    have hrefines := (hl.add h).2
    rwa [hrefines.members]
  remove hl h := by
    have hrefines := (hl.remove h).2
    rwa [hrefines.members]
  copied hl h := (hl.copied h).2

/-- What is true of the empty table and stays true whatever is declared. -/
structure TypeTable.Lasts (Q : TypeTable → Prop) : Prop where
  empty : Q []
  declareType : ∀ {table : TypeTable} (name : String), Q table → Q (table.declareType name)
  declare : ∀ {table types : TypeTable} {typeName : String} {m : Member},
    Q table → table.declare typeName m = .ok types → Q types

theorem TypeTable.lasts_forall {Q : MemberList → Prop} (hempty : Q .empty)
    (hadd : ∀ {l l' : MemberList} {m : Member} {replaced : Option Member}, Q l →
      l.add (m.setFlag .attached false) true = .ok (replaced, l') → Q l') :
    Lasts fun table => ∀ entry ∈ table, Q entry.2 where
  empty := nofun
  declareType {table} name ht := by
    unfold declareType
    split
    · exact ht
    · intro entry hentry
      rcases NameMap.mem_insert hentry with hold | ⟨-, hnew⟩
      · exact ht entry hold
      · exact hnew ▸ hempty
  declare {table types typeName m} ht h := by
    obtain ⟨replaced, l, hl, rfl⟩ := add_of_declare h
    intro entry hentry
    rcases NameMap.mem_insert hentry with hold | ⟨-, hnew⟩
    · exact ht entry hold
    · rw [NameMap.lookup_eq_find?] at hl
      rw [hnew]
      cases hfind : table.find? fun entry => sameName entry.1 typeName with
      | none => exact hadd hempty (hfind ▸ hl)
      | some found => exact hadd (ht found (List.mem_of_find?_eq_some hfind)) (hfind ▸ hl)

namespace Store.Reachable

variable {s : Store}

theorem types_of_lasts {Q : TypeTable → Prop} (hs : s.Reachable) (hQ : TypeTable.Lasts Q) :
    Q s.types := by
  refine hs.invariant (I := fun s => Q s.types) (fun _ => hQ.empty) ?_
  intro s t hstep ht
  cases hstep with
  | declareType name => exact hQ.declareType name ht
  | declare typeName m =>
    rw [Store.declare, after_read_then]
    split
    · exact ht
    · rename_i types hdeclare
      exact hQ.declare ht hdeclare
  | copyFor owner m => rwa [(enlarges_copyFor owner m s).types]
  | addToList l m vouched =>
    rw [Store.addToList, after_read_then]
    split <;> exact ht
  | removeFromList l name =>
    rw [Store.removeFromList, after_read_then]
    split <;> exact ht
  | insertTypeName o name =>
    unfold Store.insertTypeName
    split
    · exact ht
    · split <;> exact ht
  | release o =>
    unfold Store.release
    split <;> exact ht
  | _ => exact ht

theorem forall_list {Q : MemberList → Prop} (hs : s.Reachable) (hQ : MemberList.Lasts Q)
    (l : ListId) : Q (s.list l) :=
  hs.invariant (I := fun s => ∀ l, Q (s.list l)) (fun _ _ => hQ.empty)
    (fun hstep h => hQ.step h hstep) l

theorem distinct_members (hs : s.Reachable) (l : ListId) :
    (s.list l).members.Pairwise fun m other => sameName m.name other.name = false :=
  (hs.forall_list MemberList.lasts_refines l).exact.distinct

end Store.Reachable

end DynamicMembers
