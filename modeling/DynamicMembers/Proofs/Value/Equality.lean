import DynamicMembers.Value.Equality
import DynamicMembers.Proofs.Number.ExactIntegers
import DynamicMembers.Proofs.Value.Members
import Mathlib.Data.List.Perm.Subperm

/-! # Equality of values

The comparison of two maps looks the names of the one up in the other, and compares the sizes. If
no map has two entries for one name (`Value.WellKeyed`), that is as good as to look every name up in
both (`NameMap.Distinct.rel_iff`): a map that has as many names as another one, and all of them in
the other, has them all. So it does not matter which of two values is asked (`Value.same_comm`).
-/
namespace DynamicMembers

/-! ## Related look-ups -/

section

variable {α : Type} {R : α → α → Prop} {a : α} {o p : Option α}

theorem eq_none_iff_of_rel (h : Option.Rel R o p) : o = none ↔ p = none := by
  cases h <;> simp

theorem exists_of_rel_some (h : Option.Rel R (some a) p) : ∃ b, p = some b ∧ R a b := by
  cases h with
  | some h => exact ⟨_, rfl, h⟩

theorem rel_self (h : ∀ a, o = some a → R a a) : Option.Rel R o o := by
  cases o with
  | none => exact .none
  | some a => exact .some (h a rfl)

theorem rel_comm (h : ∀ a b, o = some a → p = some b → (R a b ↔ R b a)) :
    Option.Rel R o p ↔ Option.Rel R p o := by
  cases o with
  | none => cases p <;> simp
  | some a => cases p with
    | none => simp
    | some b => simpa using h a b rfl rfl

end

namespace NameMap

variable {α : Type} {m n : NameMap α} {name : String}

/-- The names as they are compared. -/
def keys (m : NameMap α) : List (List Char) :=
  m.map fun entry => fold entry.1

theorem length_keys (m : NameMap α) : m.keys.length = m.length :=
  List.length_map _

theorem fold_mem_keys_iff : fold name ∈ m.keys ↔ m.lookup name ≠ none := by
  rw [ne_eq, ← Option.not_isSome_iff_eq_none, not_not, ← holds_eq_isSome_lookup]
  simp [keys, holds, sameName_iff]

theorem keys_subset_iff :
    m.keys ⊆ n.keys ↔ ∀ name, n.lookup name = none → m.lookup name = none := by
  constructor
  · intro h name
    exact not_imp_not.mp fun hname => fold_mem_keys_iff.mp (h (fold_mem_keys_iff.mpr hname))
  · intro h key hkey
    obtain ⟨entry, -, rfl⟩ := List.mem_map.mp hkey
    exact fold_mem_keys_iff.mpr (mt (h entry.1) (fold_mem_keys_iff.mp hkey))

namespace Distinct

theorem nodup_keys (hm : m.Distinct) : m.keys.Nodup := by
  refine List.pairwise_map.mpr (hm.imp fun {a b} hne heq => ?_)
  rw [sameName_iff.mpr heq] at hne
  cases hne

/-- A map with no name less than another one has no name more if it is of the same size. -/
theorem length_eq_iff (hm : m.Distinct) (hn : n.Distinct) (h : m.keys ⊆ n.keys) :
    m.length = n.length ↔ n.keys ⊆ m.keys := by
  have hforth := hm.nodup_keys.subperm h
  rw [← length_keys, ← length_keys]
  constructor
  · intro hlength
    exact (hforth.perm_of_length_le hlength.ge).symm.subset
  · intro hback
    exact Nat.le_antisymm hforth.length_le (hn.nodup_keys.subperm hback).length_le

theorem lookup_eq_some_iff (hm : m.Distinct) {a : α} :
    m.lookup name = some a ↔ ∃ entry ∈ m, sameName entry.1 name = true ∧ entry.2 = a := by
  simp only [lookup_eq_find?, Option.map_eq_some_iff, hm.find?_eq_some_iff, and_assoc]

variable {R : α → α → Prop}

/-- To look up what there are entries for is to look up every name that is found. -/
theorem forall_mem_iff (hm : m.Distinct) :
    (∀ entry ∈ m, ∃ b, n.lookup entry.1 = some b ∧ R entry.2 b) ↔
      ∀ name a, m.lookup name = some a → ∃ b, n.lookup name = some b ∧ R a b := by
  constructor
  · intro h name a ha
    obtain ⟨entry, hentry, hname, rfl⟩ := hm.lookup_eq_some_iff.mp ha
    rw [← lookup_congr hname]
    exact h entry hentry
  · intro h entry hentry
    exact h entry.1 entry.2 (hm.lookup_eq_some_iff.mpr ⟨entry, hentry, sameName_refl _, rfl⟩)

/-- With as many entries, all of them related to some of the other map, none is left over there. -/
theorem rel_iff (hm : m.Distinct) (hn : n.Distinct) :
    (m.length = n.length ∧ ∀ entry ∈ m, ∃ b, n.lookup entry.1 = some b ∧ R entry.2 b) ↔
      ∀ name, Option.Rel R (m.lookup name) (n.lookup name) := by
  rw [hm.forall_mem_iff]
  constructor
  · rintro ⟨hlength, hforth⟩ name
    have hsub : m.keys ⊆ n.keys := by
      refine keys_subset_iff.mpr fun name hnone => Option.eq_none_iff_forall_ne_some.mpr ?_
      intro a ha
      obtain ⟨b, hb, -⟩ := hforth name a ha
      rw [hnone] at hb
      cases hb
    cases ha : m.lookup name with
    | some a =>
      obtain ⟨b, hb, hab⟩ := hforth name a ha
      rw [hb]
      exact .some hab
    | none =>
      rw [keys_subset_iff.mp ((hm.length_eq_iff hn hsub).mp hlength) name ha]
      exact .none
  · intro h
    have hsub : m.keys ⊆ n.keys :=
      keys_subset_iff.mpr fun name => (eq_none_iff_of_rel (h name)).mpr
    have hback : n.keys ⊆ m.keys :=
      keys_subset_iff.mpr fun name => (eq_none_iff_of_rel (h name)).mp
    refine ⟨(hm.length_eq_iff hn hsub).mpr hback, fun name a ha => ?_⟩
    exact exists_of_rel_some (ha ▸ h name)

end Distinct

end NameMap

namespace Value

/-- No map in the value has two entries for one name, at any depth of lists and maps. -/
inductive WellKeyed : Value → Prop
  | null : WellKeyed .null
  | boolean (b : Bool) : WellKeyed (.boolean b)
  | int (i : Int64) : WellKeyed (.int i)
  | float (x : Binary64) : WellKeyed (.float x)
  | string (s : String) : WellKeyed (.string s)
  | list {items : List Value} (h : ∀ v ∈ items, WellKeyed v) : WellKeyed (.list items)
  | map {entries : List (String × Value)} (hdistinct : NameMap.Distinct entries)
      (h : ∀ entry ∈ entries, WellKeyed entry.2) : WellKeyed (.map entries)
  | object (o : ObjectId) : WellKeyed (.object o)
  | member (m : Member) : WellKeyed (.member m)

section

variable {entries : List (String × Value)}

theorem wellKeyed_ofList (h : ∀ entry ∈ entries, entry.2.WellKeyed) :
    (Value.map (NameMap.ofList entries)).WellKeyed := by
  refine .map (NameMap.Distinct.ofList entries) fun entry hentry => ?_
  obtain ⟨given, hgiven, he⟩ := NameMap.mem_ofList hentry
  exact he ▸ h given hgiven

theorem WellKeyed.insert {v : Value} (h : (Value.map entries).WellKeyed) (hv : v.WellKeyed)
    (name : String) : (Value.map (NameMap.insert name v entries)).WellKeyed := by
  cases h with
  | map hdistinct hentries =>
    refine .map (hdistinct.insert name v) fun entry hentry => ?_
    rcases NameMap.mem_insert hentry with hold | ⟨-, rfl⟩
    · exact hentries entry hold
    · exact hv

end

abbrev Equal (v w : Value) : Prop := v.same w = true

variable {a b : Value} {as bs : List Value} {entries other : List (String × Value)}

/-! ## Part by part -/

theorem same_list_iff :
    Equal (.list as) (.list bs) ↔ ∀ k : ℕ, Option.Rel Equal as[k]? bs[k]? := by
  rw [Equal, same]
  induction as generalizing bs with
  | nil => cases bs with
    | nil => simp [sameItems]
    | cons b bs => simpa [sameItems] using ⟨0, by simp⟩
  | cons a as ih => cases bs with
    | nil => simpa [sameItems] using ⟨0, by simp⟩
    | cons b bs =>
      rw [← Nat.and_forall_add_one]
      simp [sameItems, ih]

theorem sameEntries_iff : sameEntries entries other = true ↔
    ∀ entry ∈ entries, ∃ w, NameMap.lookup entry.1 other = some w ∧ entry.2.Equal w := by
  induction entries with
  | nil => simp [sameEntries]
  | cons entry rest ih =>
    cases h : NameMap.lookup entry.1 other <;> simp [sameEntries, h, ih]

theorem same_map_iff (hentries : NameMap.Distinct entries) (hother : NameMap.Distinct other) :
    Equal (.map entries) (.map other) ↔ ∀ name,
      Option.Rel Equal (NameMap.lookup name entries) (NameMap.lookup name other) := by
  rw [Equal, same, Bool.and_eq_true, beq_iff_eq, sameEntries_iff]
  exact hentries.rel_iff hother

/-! ## Reflexive and symmetric -/

theorem same_refl (ha : a.WellKeyed) : a.Equal a := by
  induction ha with
  | list _ ih =>
    exact same_list_iff.mpr fun k => rel_self fun v hv => ih v (List.mem_of_getElem? hv)
  | map hdistinct _ ih =>
    refine (same_map_iff hdistinct hdistinct).mpr fun name => rel_self fun v hv => ?_
    obtain ⟨entry, hentry, -, rfl⟩ := hdistinct.lookup_eq_some_iff.mp hv
    exact ih entry hentry
  | float x => exact x.same_refl
  | null => rfl
  | boolean | int | string | object | member => simp [Equal, same]

theorem same_comm (ha : a.WellKeyed) (hb : b.WellKeyed) : a.Equal b ↔ b.Equal a := by
  induction ha generalizing b with
  | list _ ih =>
    cases hb with
    | list hitems =>
      rw [same_list_iff, same_list_iff]
      refine forall_congr' fun k => rel_comm fun v w hv hw => ?_
      exact ih v (List.mem_of_getElem? hv) (hitems w (List.mem_of_getElem? hw))
    | _ => simp [same]
  | map hdistinct _ ih =>
    cases hb with
    | map hdistinct' hentries =>
      rw [same_map_iff hdistinct hdistinct', same_map_iff hdistinct' hdistinct]
      refine forall_congr' fun name => rel_comm fun v w hv hw => ?_
      obtain ⟨entry, hentry, -, rfl⟩ := hdistinct.lookup_eq_some_iff.mp hv
      obtain ⟨entry', hentry', -, rfl⟩ := hdistinct'.lookup_eq_some_iff.mp hw
      exact ih entry hentry (hentries entry' hentry')
    | _ => simp [same]
  | float x =>
    cases hb with
    | float y => rw [Equal, Equal, same, same, Binary64.same_comm]
    | _ => simp [same]
  | null | boolean | int | string | object | member =>
    cases hb <;> simp only [Equal, same, Bool.beq_comm]

/-! ## The laws -/

/-- What a comparison of values has to be. -/
structure IsEquality (R : Value → Value → Prop) : Prop where
  refl : ∀ {a : Value}, a.WellKeyed → R a a
  symm : ∀ {a b : Value}, a.WellKeyed → b.WellKeyed → (R a b ↔ R b a)
  /-- Neither the order of the entries nor the spelling of the names matters, and no name may be
  missing on one side. -/
  maps : ∀ {entries other : List (String × Value)},
    (Value.map entries).WellKeyed → (Value.map other).WellKeyed →
      (R (.map entries) (.map other) ↔ ∀ name,
        Option.Rel R (NameMap.lookup name entries) (NameMap.lookup name other))
  /-- Finite numbers compare by what they stand for, and not-a-number is like an infinity one of
  its own kind. -/
  floats : ∀ x y : Binary64, R (.float x) (.float y) ↔
    x = y ∨ ∃ r : ℚ, x.value? = some r ∧ y.value? = some r
  /-- An integer is what it becomes as a floating-point number. -/
  mixed : ∀ (i : Int64) (x : Binary64),
    R (.int i) (.float x) ↔ R (.float (.ofInt i.toInt)) (.float x)

theorem equal_isEquality : IsEquality Equal where
  refl := same_refl
  symm := same_comm
  maps h h' := by
    cases h with
    | map hdistinct _ => cases h' with
      | map hdistinct' _ => exact same_map_iff hdistinct hdistinct'
  floats x y := by
    rw [Equal, same]
    exact Binary64.same_iff
  mixed i x := by
    rw [Equal, Equal, same, same]

/-- In another order, with other spellings and with a floating-point number for the integer. -/
theorem equal_rewritten_map :
    Equal (.map (NameMap.ofList [("B", .null), ("ä", .list [.float .nan, .float (.ofInt 2)])]))
      (.map (NameMap.ofList [("Ä", .list [.float .nan, .int 2]), ("b", .null)])) := by
  refine (equal_isEquality.symm (wellKeyed_ofList ?_) (wellKeyed_ofList ?_)).mp ?_
  · have hlist : (Value.list [.float .nan, .int 2]).WellKeyed :=
      .list (by simp [WellKeyed.float, WellKeyed.int])
    simp [hlist, WellKeyed.null]
  · have hlist : (Value.list [.float .nan, .float (.ofInt 2)]).WellKeyed :=
      .list (by simp [WellKeyed.float])
    simp [hlist, WellKeyed.null]
  · decide +kernel

end Value

end DynamicMembers
