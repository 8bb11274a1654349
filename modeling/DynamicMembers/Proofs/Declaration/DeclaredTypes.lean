import DynamicMembers.Declaration.Load
import DynamicMembers.Proofs.Store.WellNamed

/-! # Members declared for types

What a type table shows after one more type, one more member or several members, of
which the first with a reserved name ends it (`TypeTable.declareEach`).

A member that is made later is told from those in the table by its identity. If members
that are declared are new, so is one that their type shows afterwards, whatever it showed
before (`TypeTable.hasNew_of_declareEach`).
-/
namespace DynamicMembers

/-! ## Entries -/

theorem NameMap.holds_insert {α : Type} (key name : String) (a : α) (m : NameMap α) :
    NameMap.holds name (NameMap.insert key a m) = (NameMap.holds name m || sameName key name) := by
  rw [holds_eq_isSome_lookup, holds_eq_isSome_lookup]
  by_cases hname : sameName key name = true
  · rw [← lookup_congr hname, lookup_insert_self, hname, Bool.or_true]
    rfl
  · have hname := Bool.eq_false_iff.mpr hname
    rw [lookup_insert_other a m hname, hname, Bool.or_false]

theorem NameMap.exists_mem_insert {α : Type} (key : String) (a : α) (m : NameMap α) :
    ∃ entry ∈ NameMap.insert key a m, entry.2 = a := by
  induction m with
  | nil => exact ⟨(key, a), List.mem_singleton_self _, rfl⟩
  | cons first rest ih =>
    by_cases hkey : sameName first.1 key = true
    · rw [insert, if_pos hkey]
      exact ⟨(first.1, a), List.mem_cons_self, rfl⟩
    · rw [insert, if_neg hkey]
      obtain ⟨entry, hentry, ha⟩ := ih
      exact ⟨entry, List.mem_cons_of_mem _ hentry, ha⟩

theorem MemberList.members_of_add {l : MemberList} {m : Member} {vouched : Bool}
    {added : Option Member × MemberList} (h : l.add m vouched = .ok added) :
    m ∈ added.2.members ∧ ∀ other ∈ added.2.members, other = m ∨ other ∈ l.members := by
  unfold MemberList.add at h
  split at h
  · cases h
  · split at h
    · cases h
    · cases h
      refine ⟨?_, fun other hother => ?_⟩
      · obtain ⟨entry, hentry, hm⟩ := NameMap.exists_mem_insert m.name m l.entries
        exact List.mem_map.mpr ⟨entry, hentry, hm⟩
      · obtain ⟨entry, hentry, rfl⟩ := List.mem_map.mp hother
        rcases NameMap.mem_insert hentry with hold | ⟨-, hm⟩
        · exact .inr (List.mem_map_of_mem hold)
        · exact .inl hm

/-! ## Tables -/

/-- The member was made when so many had been made, or later. -/
def Member.IsNew (count : Nat) (m : Member) : Prop :=
  ∃ serial, m.id = .made serial ∧ count ≤ serial

theorem Member.IsNew.mono {m : Member} {count later : Nat} (h : m.IsNew later)
    (hcount : count ≤ later) : m.IsNew count := by
  obtain ⟨serial, hserial, hlater⟩ := h
  exact ⟨serial, hserial, Nat.le_trans hcount hlater⟩

/-- What is declared for a type by members one after another, up to one that is refused. -/
def TypeTable.declareEach (typeName : String) :
    TypeTable → List Member → Except DeclarationFault Unit × TypeTable
  | table, [] => (.ok (), table)
  | table, m :: rest =>
    match table.declare typeName m with
    | .error refusal => (.error (.member refusal), table)
    | .ok types => TypeTable.declareEach typeName types rest

namespace TypeTable

variable {table types : TypeTable} {typeName name : String} {m : Member} {count : Nat}

theorem declare_of_reserved {m : Member} (h : isReservedName m.name = true) :
    table.declare typeName m = .error (.reservedName m.name) := if_pos h

theorem exists_declare {m : Member} (h : isReservedName m.name = false) :
    ∃ types, table.declare typeName m = .ok types := by
  have hadd (l : MemberList) : ∃ added, l.add (m.setFlag .attached false) true = .ok added := by
    have hname : ¬ isReservedName (m.setFlag .attached false).name = true := by
      simpa [Member.setFlag] using h
    exact ⟨_, (if_neg hname).trans (if_neg (by simp))⟩
  obtain ⟨added, hadded⟩ := hadd ((NameMap.lookup typeName table).getD .empty)
  rw [declare, if_neg (by simp [h])]
  dsimp only
  rw [hadded]
  exact ⟨_, rfl⟩

theorem declareEach_of_error {members : List Member} {cause : DeclarationFault}
    (h : declareEach typeName table members = (.error cause, types)) :
    ∃ first m rest, members = first ++ m :: rest ∧ isReservedName m.name = true ∧
      (∀ other ∈ first, isReservedName other.name = false) ∧
      cause = .member (.reservedName m.name) ∧
      declareEach typeName table first = (.ok (), types) := by
  induction members generalizing table with
  | nil => cases h
  | cons m rest ih =>
    by_cases hname : isReservedName m.name = true
    · rw [declareEach, declare_of_reserved hname] at h
      cases h
      exact ⟨[], m, rest, rfl, hname, by simp, rfl, rfl⟩
    · have hname := Bool.eq_false_iff.mpr hname
      obtain ⟨middle, hdeclare⟩ : ∃ types, table.declare typeName m = .ok types :=
        exists_declare hname
      rw [declareEach, hdeclare] at h
      obtain ⟨first, reserved, others, rfl, hreserved, hfirst, hcause, hdeclared⟩ := ih h
      refine ⟨m :: first, reserved, others, rfl, hreserved, ?_, hcause, ?_⟩
      · exact List.forall_mem_cons.mpr ⟨hname, hfirst⟩
      · rw [declareEach, hdeclare]
        exact hdeclared

theorem holds_declareType (table : TypeTable) (typeName name : String) :
    NameMap.holds name (table.declareType typeName) =
      (NameMap.holds name table || sameName typeName name) := by
  unfold declareType
  split
  next hdeclared =>
    have hsame : sameName typeName name = true → NameMap.holds name table = true := fun hname => by
      rwa [NameMap.holds_eq_isSome_lookup, ← NameMap.lookup_congr hname,
        ← NameMap.holds_eq_isSome_lookup]
    rw [Bool.eq_iff_iff, Bool.or_eq_true]
    exact ⟨.inl, fun h => h.elim id hsame⟩
  next => exact NameMap.holds_insert typeName name .empty table

theorem holds_typeNames (table : TypeTable) (name : String) :
    NameMap.holds name table = table.typeNames.any fun declared => sameName declared name := by
  rw [NameMap.holds, typeNames, List.any_map]
  rfl

theorem exists_list_of_declare (h : table.declare typeName m = .ok types) :
    ∃ l : MemberList, types = NameMap.insert typeName l table ∧
      m.setFlag .attached false ∈ l.members ∧
      ∀ other ∈ l.members, other = m.setFlag .attached false ∨
        other ∈ table.typeMembers typeName := by
  obtain ⟨replaced, l, hadd, rfl⟩ := add_of_declare h
  obtain ⟨htemplate, hothers⟩ := MemberList.members_of_add hadd
  refine ⟨l, rfl, htemplate, fun other hother => (hothers other hother).imp id ?_⟩
  unfold typeMembers
  cases NameMap.lookup typeName table with
  | none => simp [MemberList.members, MemberList.empty]
  | some declared => exact id

theorem holds_of_declare (h : table.declare typeName m = .ok types)
    (hname : NameMap.holds name table = true) : NameMap.holds name types = true := by
  obtain ⟨l, rfl, -⟩ := exists_list_of_declare h
  rw [NameMap.holds_insert, hname, Bool.true_or]

def HasNew (count : Nat) (table : TypeTable) (name : String) : Prop :=
  ∃ m ∈ table.typeMembers name, m.IsNew count

theorem typeMembers_insert_self {l : MemberList} (hname : sameName typeName name = true) :
    TypeTable.typeMembers (NameMap.insert typeName l table) name = l.members := by
  rw [typeMembers, ← NameMap.lookup_congr hname, NameMap.lookup_insert_self]

theorem typeMembers_insert_other {l : MemberList} (hname : sameName typeName name = false) :
    TypeTable.typeMembers (NameMap.insert typeName l table) name = table.typeMembers name := by
  rw [typeMembers, NameMap.lookup_insert_other _ _ hname, typeMembers]

theorem typeMembers_declareType (table : TypeTable) (typeName name : String) :
    (table.declareType typeName).typeMembers name = table.typeMembers name := by
  unfold declareType
  split
  · rfl
  next hnew =>
    by_cases hname : sameName typeName name = true
    · have hnone : NameMap.lookup name table = none := by
        rw [NameMap.holds_eq_isSome_lookup, NameMap.lookup_congr hname] at hnew
        simpa using hnew
      rw [typeMembers_insert_self hname, typeMembers, hnone]
      rfl
    · exact typeMembers_insert_other (Bool.eq_false_iff.mpr hname)

/-- What a type shows after a member has been declared, under any spelling of its name. -/
theorem typeMembers_of_declare (h : table.declare typeName m = .ok types) (name : String) :
    (sameName typeName name = true → m.setFlag .attached false ∈ types.typeMembers name) ∧
      ∀ other ∈ types.typeMembers name, other = m.setFlag .attached false ∨
        other ∈ table.typeMembers name := by
  obtain ⟨l, rfl, htemplate, hothers⟩ := exists_list_of_declare h
  by_cases hname : sameName typeName name = true
  · rw [typeMembers_insert_self hname]
    have hsame : table.typeMembers name = table.typeMembers typeName := by
      rw [typeMembers, typeMembers, NameMap.lookup_congr hname]
    exact ⟨fun _ => htemplate, hsame ▸ hothers⟩
  · rw [typeMembers_insert_other (Bool.eq_false_iff.mpr hname)]
    exact ⟨fun hsame => absurd hsame hname, fun _ => .inr⟩

/-- A new member may take the place of another one, but then the type has a new one still. -/
theorem hasNew_of_declare (hm : m.IsNew count) (h : table.declare typeName m = .ok types) :
    HasNew count types typeName ∧ ∀ name, HasNew count table name → HasNew count types name := by
  have hnew {name : String} (hname : sameName typeName name = true) : HasNew count types name :=
    ⟨_, (typeMembers_of_declare h name).1 hname, hm⟩
  refine ⟨hnew (sameName_refl typeName), fun name hbefore => ?_⟩
  by_cases hname : sameName typeName name = true
  · exact hnew hname
  · obtain ⟨l, rfl, -⟩ := exists_list_of_declare h
    rwa [HasNew, typeMembers_insert_other (Bool.eq_false_iff.mpr hname)]

theorem hasNew_of_declareEach {members : List Member} (hmembers : ∀ m ∈ members, m.IsNew count)
    (h : declareEach typeName table members = (.ok (), types)) :
    (members ≠ [] → HasNew count types typeName) ∧
      ∀ name, HasNew count table name → HasNew count types name := by
  induction members generalizing table with
  | nil =>
    cases h
    exact ⟨fun hnonempty => absurd rfl hnonempty, fun _ => id⟩
  | cons m rest ih =>
    obtain ⟨hm, hrest⟩ := List.forall_mem_cons.mp hmembers
    cases hdeclare : TypeTable.declare table typeName m with
    | error =>
      rw [declareEach, hdeclare] at h
      cases h
    | ok middle =>
      rw [declareEach, hdeclare] at h
      obtain ⟨hnew, hkeep⟩ := hasNew_of_declare hm hdeclare
      obtain ⟨-, hkeepRest⟩ := ih hrest h
      exact ⟨fun _ => hkeepRest typeName hnew,
        fun name hbefore => hkeepRest name (hkeep name hbefore)⟩

/-- Nothing is new to the table but what is declared now. -/
theorem hasNew_before_declareEach {outcome : Except DeclarationFault Unit} {members : List Member}
    (hmembers : ∀ m ∈ members, ¬ m.IsNew count)
    (h : declareEach typeName table members = (outcome, types)) (hnew : HasNew count types name) :
    HasNew count table name := by
  induction members generalizing table with
  | nil =>
    cases h
    exact hnew
  | cons m rest ih =>
    obtain ⟨hm, hrest⟩ := List.forall_mem_cons.mp hmembers
    cases hdeclare : TypeTable.declare table typeName m with
    | error =>
      rw [declareEach, hdeclare] at h
      cases h
      exact hnew
    | ok middle =>
      rw [declareEach, hdeclare] at h
      obtain ⟨other, hother, hisNew⟩ := ih hrest h
      rcases (typeMembers_of_declare hdeclare name).2 other hother with rfl | hold
      · exact absurd hisNew hm
      · exact ⟨other, hold, hisNew⟩

end TypeTable

end DynamicMembers
