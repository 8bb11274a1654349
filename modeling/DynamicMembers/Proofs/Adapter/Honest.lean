import DynamicMembers.Adapter.Bag
import DynamicMembers.Proofs.View.Sources

/-! # Where adapters have their values from

An adapter is given values to keep, the base value and arguments. The members in what it
answers and in what it writes are among the members in these: it has no other way to a
member. So do the adapters of this library.
-/
namespace DynamicMembers

def AdapterState.members (state : AdapterState) : List Member :=
  state.base.members ++ state.shelf.toList.flatMap Value.members

/-- An adapter has its values from what it keeps, from the base value and from its arguments. -/
structure Adapter.Honest (adapter : Adapter) : Prop where
  get : ∀ {state data v}, adapter.get state data = .ok v → v.members ⊆ state.members
  set : ∀ {state data v written}, adapter.set state data v = .ok written →
    written.members ⊆ state.members ++ v.members
  invoke : ∀ {write state data hints args v}, adapter.invoke write state data hints args = .ok v →
    v.members ⊆ state.members ++ args.flatMap Value.members
  getIndexed : ∀ {write state data args v}, adapter.getIndexed write state data args = .ok v →
    v.members ⊆ state.members ++ args.flatMap Value.members
  setIndexed : ∀ {write state data v args written},
    adapter.setIndexed write state data v args = .ok written →
    written.members ⊆ state.members ++ (v :: args).flatMap Value.members

theorem NameMap.members_of_lookup {entries : NameMap Value} {key : String} {v : Value}
    (h : entries.lookup key = some v) : v.members ⊆ (Value.map entries).members := by
  obtain ⟨entry, hentry, rfl⟩ := exists_mem_of_lookup h
  exact fun m hm => Value.mem_members_map.mpr ⟨entry, hentry, hm⟩

theorem NameMap.members_insert (key : String) (v : Value) (entries : NameMap Value) :
    (Value.map (entries.insert key v)).members ⊆ (Value.map entries).members ++ v.members := by
  intro m hm
  obtain ⟨entry, hentry, hm⟩ := Value.mem_members_map.mp hm
  rcases mem_insert hentry with hold | ⟨-, hv⟩
  · exact List.mem_append_left _ (Value.mem_members_map.mpr ⟨entry, hold, hm⟩)
  · exact List.mem_append_right _ (hv ▸ hm)

namespace AdapterState

variable {state : AdapterState} {given : List Member}

theorem members_withBase {base : Value} (h : base.members ⊆ state.base.members ++ given) :
    ({ state with base := base } : AdapterState).members ⊆ state.members ++ given := by
  intro m hm
  rcases List.mem_append.mp hm with hbase | hshelf
  · rcases List.mem_append.mp (h hbase) with hold | hgiven
    · exact List.mem_append_left _ (List.mem_append_left _ hold)
    · exact List.mem_append_right _ hgiven
  · exact List.mem_append_left _ (List.mem_append_right _ hshelf)

end AdapterState

theorem Value.members_of_item {items : List Value} {i : Nat} :
    (items[i]?.getD .null).members ⊆ (list items).members := by
  intro m hm
  cases hv : items[i]? with
  | none =>
    rw [hv] at hm
    cases hm
  | some v =>
    rw [hv] at hm
    exact mem_members_list.mpr ⟨v, List.mem_of_getElem? hv, hm⟩

theorem Value.members_setItem {items : List Value} {i : Nat} {v : Value} :
    (list (items.set i v)).members ⊆ (list items).members ++ v.members := by
  intro m hm
  obtain ⟨item, hitem, hitemMember⟩ := mem_members_list.mp hm
  rcases List.mem_or_eq_of_mem_set hitem with hold | rfl
  · exact List.mem_append_left _ (mem_members_list.mpr ⟨item, hold, hitemMember⟩)
  · exact List.mem_append_right _ hitemMember

/-! ## The adapter for property bags -/

namespace Bag

variable {state written : AdapterState} {data : AdapterData} {v : Value} {args : List Value}
  {write : Value → String}

theorem members_of_get (h : get state data = .ok v) : v.members ⊆ state.members := by
  cases data with
  | bag r =>
    simp only [get, row, bind, Except.bind] at h
    split at h
    next entries hbase =>
      split at h
      next hlookup =>
        cases h
        rw [AdapterState.members, hbase]
        exact List.subset_append_of_subset_left _ (NameMap.members_of_lookup hlookup)
      · cases h
    · cases h
      simp [Value.members]
    · cases h
      simp [Value.members]
    · cases h
  | _ => cases h

theorem members_of_set (h : set state data v = .ok written) :
    written.members ⊆ state.members ++ v.members := by
  cases data with
  | bag r =>
    simp only [set, row, bind, Except.bind] at h
    split at h
    next key entries hbase =>
      cases h
      refine AdapterState.members_withBase ?_
      rw [hbase]
      exact NameMap.members_insert key v entries
    · cases h
  | _ => cases h

theorem members_of_invoke {hints : InvocationHints}
    (h : invoke write state data hints args = .ok v) : v.members = [] := by
  cases data with
  | bag r =>
    simp only [invoke, row, bind, Except.bind] at h
    split at h
    · split at h
      · cases h
      · cases h
        rfl
    · split at h
      · cases h
      · split at h
        next type _ =>
          generalize ((args.headD .null).convertTo write type).mapError Failure.conversion =
            other at h
          cases other <;> cases h
          rfl
        next =>
          cases h
          rfl
    · cases h
  | _ => cases h

theorem members_of_getIndexed (h : getIndexed write state data args = .ok v) :
    v.members ⊆ state.members := by
  cases data with
  | bag r =>
    simp only [getIndexed, row, bind, Except.bind] at h
    split at h
    next items hbase =>
      split at h
      · cases h
      · cases h
        rw [AdapterState.members, hbase]
        exact List.subset_append_of_subset_left _ Value.members_of_item
    · cases h
  | _ => cases h

theorem members_of_setIndexed (h : setIndexed write state data v args = .ok written) :
    written.members ⊆ state.members ++ v.members := by
  cases data with
  | bag r =>
    simp only [setIndexed, row, bind, Except.bind] at h
    split at h
    next items hbase =>
      split at h
      · cases h
      · cases h
        refine AdapterState.members_withBase ?_
        rw [hbase]
        exact Value.members_setItem
    · cases h
  | _ => cases h

end Bag

theorem Adapter.honest_bag : bag.Honest where
  get h := Bag.members_of_get h
  set h := Bag.members_of_set h
  invoke h := by
    rw [Bag.members_of_invoke h]
    exact List.nil_subset _
  getIndexed h := List.subset_append_of_subset_left _ (Bag.members_of_getIndexed h)
  setIndexed {write state data v args written} h := by
    rw [List.flatMap_cons, ← List.append_assoc]
    exact List.subset_append_of_subset_left _ (Bag.members_of_setIndexed h)

end DynamicMembers
