import DynamicMembers.Proofs.Store.WellNamed
import DynamicMembers.Proofs.View.Agreement

/-! # Lists under changes

A list of members has keys that are found without regard to case and a count of hidden
members that each change adjusts. What is seen of it is a plain list: a member takes the
place of the one that has its name or goes to the end, and the rest keep their order
(`MemberList.Exact`).

The invariant relates the list to the plain one (`MemberList.Refines`); it holds of the
empty list and is kept by additions, removals and copies.
-/
namespace DynamicMembers

/-! ## Plain lists -/

namespace PlainList

def named? (plain : List Member) (name : String) : Option Member :=
  plain.find? fun m => sameName m.name name

/-- The member takes the place of the one that has its name, or goes to the end. -/
def put (plain : List Member) (m : Member) : List Member :=
  match plain.findIdx? fun old => sameName old.name m.name with
  | some i => plain.set i m
  | none => plain ++ [m]

def without (plain : List Member) (name : String) : List Member :=
  plain.eraseP fun m => sameName m.name name

theorem put_cons (first : Member) (rest : List Member) (m : Member) :
    put (first :: rest) m =
      if sameName first.name m.name then m :: rest else first :: put rest m := by
  rw [put, put, List.findIdx?_cons]
  by_cases hname : sameName first.name m.name = true
  · rw [if_pos hname, if_pos hname]
    rfl
  · rw [if_neg hname, if_neg hname]
    cases rest.findIdx? fun old => sameName old.name m.name <;> rfl

theorem mem_put (plain : List Member) (m : Member) : m ∈ put plain m := by
  induction plain with
  | nil => exact List.mem_singleton_self m
  | cons first rest ih =>
    rw [put_cons]
    split
    · exact List.mem_cons_self
    · exact List.mem_cons_of_mem _ ih

end PlainList

/-! ## Entries under their keys -/

namespace NameMap

variable {entries : NameMap Member}

def hidden (entries : NameMap Member) : Nat := entries.countP (·.2.flags.hidden)

theorem values_insert (m : Member) (h : ∀ entry ∈ entries, sameName entry.1 entry.2.name = true) :
    (entries.insert m.name m).map (·.2) = PlainList.put (entries.map (·.2)) m := by
  induction entries with
  | nil => rfl
  | cons entry rest ih =>
    obtain ⟨hkey, hrest⟩ := List.forall_mem_cons.mp h
    rw [List.map_cons, PlainList.put_cons, ← sameName_congr_left hkey m.name, ← ih hrest]
    by_cases hname : sameName entry.1 m.name = true
    · rw [insert, if_pos hname, if_pos hname, List.map_cons]
    · rw [insert, if_neg hname, if_neg hname, List.map_cons]

theorem values_erase (name : String)
    (h : ∀ entry ∈ entries, sameName entry.1 entry.2.name = true) :
    (entries.erase name).map (·.2) = PlainList.without (entries.map (·.2)) name := by
  induction entries with
  | nil => rfl
  | cons entry rest ih =>
    obtain ⟨hkey, hrest⟩ := List.forall_mem_cons.mp h
    rw [List.map_cons, PlainList.without, List.eraseP_cons, ← sameName_congr_left hkey name,
      ← PlainList.without, ← ih hrest, NameMap.erase]
    by_cases hname : sameName entry.1 name = true
    · rw [if_pos hname, hname, cond_true]
    · rw [if_neg hname, Bool.eq_false_iff.mpr hname, cond_false, List.map_cons]

theorem hidden_cons (key : String) (m : Member) (rest : NameMap Member) :
    hidden ((key, m) :: rest) = hidden rest + MemberList.hiddenWeight (some m) :=
  List.countP_cons

theorem hidden_insert (entries : NameMap Member) (m : Member) (name : String) :
    hidden (entries.insert name m) + MemberList.hiddenWeight (entries.lookup name) =
      hidden entries + MemberList.hiddenWeight (some m) := by
  induction entries with
  | nil => exact Nat.add_right_cancel_iff.mpr (hidden_cons name m [])
  | cons entry rest ih =>
    obtain ⟨key, old⟩ := entry
    by_cases hname : sameName key name = true
    · rw [insert, lookup, if_pos hname, if_pos hname, hidden_cons, hidden_cons]
      omega
    · rw [insert, lookup, if_neg hname, if_neg hname, hidden_cons, hidden_cons]
      omega

theorem hidden_erase (entries : NameMap Member) (name : String) :
    hidden (entries.erase name) + MemberList.hiddenWeight (entries.lookup name) =
      hidden entries := by
  induction entries with
  | nil => rfl
  | cons entry rest ih =>
    obtain ⟨key, old⟩ := entry
    by_cases hname : sameName key name = true
    · rw [NameMap.erase, lookup, if_pos hname, if_pos hname, hidden_cons]
    · rw [NameMap.erase, lookup, if_neg hname, if_neg hname, hidden_cons, hidden_cons]
      omega

def Copied (owner : Option ObjectId) (entries copies : NameMap Member) : Prop :=
  List.Forall₂ (fun entry other => other.1 = entry.1 ∧ entry.2.IsCopy owner other.2) entries copies

variable {owner : Option ObjectId} {copies : NameMap Member}

theorem Copied.keys (h : Copied owner entries copies) : copies.map (·.1) = entries.map (·.1) := by
  induction h with
  | nil => rfl
  | cons hfirst _ ih => rw [List.map_cons, List.map_cons, ih, hfirst.1]

theorem Copied.hidden (h : Copied owner entries copies) : copies.hidden = entries.hidden := by
  induction h with
  | nil => rfl
  | @cons entry other rest others hfirst _ ih =>
    have hflags : MemberList.hiddenWeight (some other.2) =
        MemberList.hiddenWeight (some entry.2) := by
      rw [MemberList.hiddenWeight, MemberList.hiddenWeight, hfirst.2.flags]
    rw [hidden_cons other.1, hidden_cons entry.1, ih, hflags]

end NameMap

namespace MemberList

/-- The list holds the members of the plain list, each under its own name, and has counted the
hidden ones. -/
structure Refines (l : MemberList) (plain : List Member) : Prop where
  members : l.members = plain
  distinct : l.entries.Distinct
  wellNamed : l.WellNamed
  hidden : l.hiddenCount = l.entries.hidden

namespace Refines

variable {l l' : MemberList} {plain : List Member}

theorem empty : Refines empty [] := ⟨rfl, .nil, wellNamed_empty, rfl⟩

theorem add {m : Member} {vouched : Bool} {replaced : Option Member} (hl : l.Refines plain)
    (h : l.add m vouched = .ok (replaced, l')) :
    replaced = PlainList.named? plain m.name ∧ l'.Refines (PlainList.put plain m) := by
  have hnamed := hl.wellNamed.add h
  unfold MemberList.add at h
  split at h
  · cases h
  · split at h
    · cases h
    · cases h
      refine ⟨?_, ?_, hl.distinct.insert _ _, hnamed, ?_⟩
      · rw [hl.wellNamed.find?_eq, hl.members, PlainList.named?]
      · rw [MemberList.members, NameMap.values_insert m hl.wellNamed.keyed, ← hl.members,
          MemberList.members]
      · have hcount := NameMap.hidden_insert l.entries m m.name
        have hhidden := hl.hidden
        dsimp only [find?]
        omega

theorem remove {name : String} {removed : Option Member} (hl : l.Refines plain)
    (h : l.remove name = .ok (removed, l')) :
    removed = PlainList.named? plain name ∧ l'.Refines (PlainList.without plain name) := by
  have hnamed := hl.wellNamed.remove h
  unfold MemberList.remove at h
  split at h
  · cases h
  · cases h
    refine ⟨?_, ?_, hl.distinct.erase _, hnamed, ?_⟩
    · rw [hl.wellNamed.find?_eq, hl.members, PlainList.named?]
    · rw [MemberList.members, NameMap.values_erase name hl.wellNamed.keyed, ← hl.members,
        MemberList.members]
    · have hcount := NameMap.hidden_erase l.entries name
      have hhidden := hl.hidden
      dsimp only [find?]
      omega

theorem copied {owner : Option ObjectId} {copies : NameMap Member} (hl : l.Refines plain)
    (h : NameMap.Copied owner l.entries copies) :
    List.Forall₂ (Member.IsCopy owner) plain (copies.map (·.2)) ∧
      Refines ⟨copies, l.hiddenCount⟩ (copies.map (·.2)) := by
  have hmembers : List.Forall₂ (Member.IsCopy owner) plain (copies.map (·.2)) := by
    rw [← hl.members, MemberList.members, List.forall₂_map_left_iff, List.forall₂_map_right_iff]
    exact h.imp fun _ _ => And.right
  refine ⟨hmembers, rfl, ?_, ⟨fun other hother => ?_, fun other hother => ?_⟩, ?_⟩
  · have hkeys : (l.entries.map (·.1)).Pairwise fun a b => sameName a b = false :=
      List.pairwise_map.mpr hl.distinct
    rw [← h.keys] at hkeys
    exact List.pairwise_map.mp hkeys
  · obtain ⟨entry, hentry, hkey, hcopy⟩ := exists_mem_of_forall₂ h hother
    rw [hkey, hcopy.name]
    exact hl.wellNamed.keyed entry hentry
  · obtain ⟨entry, hentry, -, hcopy⟩ := exists_mem_of_forall₂ h hother
    rw [hcopy.name]
    exact hl.wellNamed.unreserved entry hentry
  · rw [h.hidden]
    exact hl.hidden

end Refines

/-- The list cannot be told from the plain one. Its keys are spellings of names, no name occurs
twice, and as many members are hidden as have been counted. -/
structure Exact (l : MemberList) (plain : List Member) : Prop where
  members : l.members = plain
  at? : ∀ i, l.at? i = plain[i]?
  find? : ∀ name, l.find? name = PlainList.named? plain name
  contains : ∀ name, l.contains name = plain.any fun m => sameName m.name name
  size : l.size = plain.length
  distinct : plain.Pairwise fun m other => sameName m.name other.name = false
  unreserved : ∀ m ∈ plain, isReservedName m.name = false
  keyed : ∀ entry ∈ l.entries, sameName entry.1 entry.2.name = true
  hidden : l.hiddenCount = plain.countP (·.flags.hidden)
  hidden_le : l.hiddenCount ≤ l.size
  visible : l.visibleSize = (l.matching .everything .all .visible).length

theorem Refines.exact {l : MemberList} {plain : List Member} (h : l.Refines plain) :
    l.Exact plain := by
  have hfind (name : String) : l.find? name = PlainList.named? plain name := by
    rw [h.wellNamed.find?_eq, h.members, PlainList.named?]
  have hhidden : l.hiddenCount = plain.countP (·.flags.hidden) := by
    rw [h.hidden, NameMap.hidden, ← h.members, MemberList.members, List.countP_map]
    rfl
  have hsize : l.size = plain.length := by
    rw [← h.members, MemberList.members, List.length_map, MemberList.size]
  refine ⟨h.members, fun i => by rw [at?, h.members], hfind, fun name => ?_, hsize, ?_, ?_,
    h.wellNamed.keyed, hhidden, ?_, ?_⟩
  · rw [MemberList.contains, NameMap.holds_eq_isSome_lookup, ← MemberList.find?, hfind,
      PlainList.named?, List.isSome_find?]
  · rw [← h.members, MemberList.members, List.pairwise_map]
    refine h.distinct.imp_of_mem fun {entry other} hentry hother hkeys => ?_
    rwa [← sameName_congr_left (h.wellNamed.keyed entry hentry),
      ← sameName_congr_right (h.wellNamed.keyed other hother)]
  · intro m hm
    rw [← h.members] at hm
    obtain ⟨entry, hentry, rfl⟩ := List.mem_map.mp hm
    exact h.wellNamed.unreserved entry hentry
  · rw [hhidden, hsize]
    exact List.countP_le_length
  · have hmatching : l.matching .everything .all .visible =
        plain.filter fun m => !m.flags.hidden := by
      have hname : Wildcard.everything.exactName = none := rfl
      rw [matching, hname]
      simp [Member.passes, MatchOptions.visible, h.members]
    rw [hmatching, visibleSize, hsize, hhidden, ← List.countP_eq_length_filter,
      List.length_eq_countP_add_countP (·.flags.hidden), Nat.add_sub_cancel_left]
    simp

end MemberList

/-! ## Changes -/

/-- A change to a list: a member is added or removed, or the list gives way to a copy of it whose
members belong to an owner. -/
inductive ListChange
  | add (m : Member) (vouched : Bool)
  | remove (name : String)
  | duplicate (owner : Option ObjectId) (depth : Nat)

namespace ListChange

/-- Makes the change. The outcome is the list then, and the member replaced or removed. -/
def apply (l : ListId) : ListChange → StateM Store (ListId × Except MemberError (Option Member))
  | add m vouched => do return (l, ← (Store.addToList l m vouched).run)
  | remove name => do return (l, ← (Store.removeFromList l name).run)
  | duplicate owner depth => do
    return (← Store.copyList (Store.copyWithin owner depth) l, .ok none)

/-- Makes one change after another. -/
def applyAll (l : ListId) :
    List ListChange → StateM Store (ListId × List (Except MemberError (Option Member)))
  | [] => return (l, [])
  | change :: rest => do
    let (l, answer) ← change.apply l
    let (l, answers) ← applyAll l rest
    return (l, answer :: answers)

/-- What the change makes of a plain list, and its answer. -/
inductive Plainly : ListChange → List Member → Except MemberError (Option Member) →
    List Member → Prop
  | added {m : Member} {vouched : Bool} {plain : List Member}
      (hname : isReservedName m.name = false) (hflags : vouched = true ∨ m.flags.reserved = false) :
      Plainly (add m vouched) plain (.ok (PlainList.named? plain m.name)) (PlainList.put plain m)
  | addReserved {m : Member} {vouched : Bool} {plain : List Member}
      (hname : isReservedName m.name = true) :
      Plainly (add m vouched) plain (.error (.reservedName m.name)) plain
  | addUnvouched {m : Member} {plain : List Member} (hname : isReservedName m.name = false)
      (hflags : m.flags.reserved = true) :
      Plainly (add m false) plain (.error (.invalidOperation m.name .storedReserved)) plain
  | removed {name : String} {plain : List Member} (hname : isReservedName name = false) :
      Plainly (remove name) plain (.ok (PlainList.named? plain name)) (PlainList.without plain name)
  | removeReserved {name : String} {plain : List Member} (hname : isReservedName name = true) :
      Plainly (remove name) plain (.error (.reservedName name)) plain
  | duplicated {owner : Option ObjectId} {depth : Nat} {plain copies : List Member}
      (h : List.Forall₂ (Member.IsCopy owner) plain copies) :
      Plainly (duplicate owner depth) plain (.ok none) copies

/-- The changes make the second plain list of the first, with these answers. -/
inductive AllPlainly : List ListChange → List Member → List (Except MemberError (Option Member)) →
    List Member → Prop
  | nil (plain : List Member) : AllPlainly [] plain [] plain
  | cons {change : ListChange} {rest : List ListChange} {plain middle last : List Member}
      {answer : Except MemberError (Option Member)}
      {answers : List (Except MemberError (Option Member))}
      (h : change.Plainly plain answer middle) (hrest : AllPlainly rest middle answers last) :
      AllPlainly (change :: rest) plain (answer :: answers) last

end ListChange

namespace Store

/-- The store has the list, and the list refines the plain one. -/
def Holds (s : Store) (l : ListId) (plain : List Member) : Prop :=
  l.index < s.lists.size ∧ (s.list l).Refines plain

variable {s : Store} {l : ListId} {plain : List Member}

theorem list_setList_self (members : MemberList) (hl : l.index < s.lists.size) :
    (s.setList l members).list l = members := by
  simp [list, setList, hl]

theorem holds_setList {members : MemberList} (hl : l.index < s.lists.size)
    (h : members.Refines plain) : (s.setList l members).Holds l plain := by
  refine ⟨by simpa [setList] using hl, ?_⟩
  rw [list_setList_self members hl]
  exact h

theorem holds_addList {members : MemberList} (h : members.Refines plain) :
    (s.after (addList members)).Holds ⟨s.lists.size⟩ plain := by
  refine ⟨by simp [after, addList, StateT.run], ?_⟩
  simpa [after, addList, StateT.run, list] using h

theorem run_addToList_of_error {m : Member} {vouched : Bool} {refusal : MemberError}
    (h : (s.list l).add m vouched = .error refusal) :
    (addToList l m vouched).run.run s = (.error refusal, s) := by
  rw [addToList, run_read_then, h]
  rfl

theorem run_addToList_of_ok {m : Member} {vouched : Bool} {replaced : Option Member}
    {members : MemberList} (h : (s.list l).add m vouched = .ok (replaced, members)) :
    (addToList l m vouched).run.run s = (.ok replaced, s.setList l members) := by
  rw [addToList, run_read_then, h]
  rfl

theorem run_removeFromList_of_error {name : String} {refusal : MemberError}
    (h : (s.list l).remove name = .error refusal) :
    (removeFromList l name).run.run s = (.error refusal, s) := by
  rw [removeFromList, run_read_then, h]
  rfl

theorem run_removeFromList_of_ok {name : String} {removed : Option Member} {members : MemberList}
    (h : (s.list l).remove name = .ok (removed, members)) :
    (removeFromList l name).run.run s = (.ok removed, s.setList l members) := by
  rw [removeFromList, run_read_then, h]
  rfl

end Store

namespace ListChange
open Store

/-- The change has this result: the list there is now is what the change makes of the plain list. -/
def Makes (change : ListChange) (plain : List Member)
    (result : (ListId × Except MemberError (Option Member)) × Store) : Prop :=
  ∃ last, change.Plainly plain result.1.2 last ∧ result.2.Holds result.1.1 last

variable {s : Store} {l : ListId} {plain : List Member}

theorem plainly_add_of_error {m : Member} {vouched : Bool} {refusal : MemberError}
    {members : MemberList} (h : members.add m vouched = .error refusal) :
    (add m vouched).Plainly plain (.error refusal) plain := by
  unfold MemberList.add at h
  split at h
  next hname =>
    cases h
    exact .addReserved hname
  next hname =>
    split at h
    next hflags =>
      obtain ⟨hvouched, hreserved⟩ := Bool.and_eq_true_iff.mp hflags
      obtain rfl : vouched = false := by simpa using hvouched
      cases h
      exact .addUnvouched (Bool.eq_false_iff.mpr hname) hreserved
    next => cases h

theorem plainly_add_of_ok {m : Member} {vouched : Bool} {replaced : Option Member}
    {members changed : MemberList} (h : members.add m vouched = .ok (replaced, changed)) :
    (add m vouched).Plainly plain (.ok (PlainList.named? plain m.name))
      (PlainList.put plain m) := by
  unfold MemberList.add at h
  split at h
  next => cases h
  next hname =>
    split at h
    next => cases h
    next hflags =>
      refine .added (Bool.eq_false_iff.mpr hname) ?_
      cases vouched with
      | true => exact .inl rfl
      | false => exact .inr (by simpa using hflags)

theorem makes_add (h : s.Holds l plain) (m : Member) (vouched : Bool) :
    Makes (add m vouched) plain (((add m vouched).apply l).run s) := by
  have hrun : ((add m vouched).apply l).run s =
      ((l, ((addToList l m vouched).run.run s).1), ((addToList l m vouched).run.run s).2) := rfl
  rw [hrun]
  cases hadd : (s.list l).add m vouched with
  | error refusal =>
    rw [run_addToList_of_error hadd]
    exact ⟨plain, plainly_add_of_error hadd, h⟩
  | ok added =>
    obtain ⟨replaced, members⟩ := added
    obtain ⟨rfl, hmembers⟩ := h.2.add hadd
    rw [run_addToList_of_ok hadd]
    exact ⟨_, plainly_add_of_ok hadd, holds_setList h.1 hmembers⟩

theorem makes_remove (h : s.Holds l plain) (name : String) :
    Makes (remove name) plain (((remove name).apply l).run s) := by
  have hrun : ((remove name).apply l).run s =
      ((l, ((removeFromList l name).run.run s).1), ((removeFromList l name).run.run s).2) := rfl
  rw [hrun]
  by_cases hname : isReservedName name = true
  · have hremove : (s.list l).remove name = .error (.reservedName name) := if_pos hname
    rw [run_removeFromList_of_error hremove]
    exact ⟨plain, .removeReserved hname, h⟩
  · obtain ⟨⟨removed, members⟩, hremove⟩ : ∃ removed, (s.list l).remove name = .ok removed :=
      ⟨_, if_neg hname⟩
    obtain ⟨rfl, hmembers⟩ := h.2.remove hremove
    rw [run_removeFromList_of_ok hremove]
    exact ⟨_, .removed (Bool.eq_false_iff.mpr hname), holds_setList h.1 hmembers⟩

theorem makes_duplicate (h : s.Holds l plain) (owner : Option ObjectId) (depth : Nat) :
    Makes (duplicate owner depth) plain (((duplicate owner depth).apply l).run s) := by
  have hcopies := (mapM_forall₂ (P := fun _ : Store => True)
    (Q := fun entry other : String × Member => other.1 = entry.1 ∧ entry.2.IsCopy owner other.2)
    (f := fun entry => do return (entry.1, ← copyWithin owner depth entry.2))
    (fun entry t _ => ⟨⟨rfl, isCopy_copyWithin owner depth entry.2 t⟩, trivial⟩)
    (s.list l).entries (s := s) trivial).1
  obtain ⟨hmembers, hrefines⟩ := h.2.copied hcopies
  exact ⟨_, .duplicated hmembers, holds_addList hrefines⟩

theorem makes (h : s.Holds l plain) (change : ListChange) :
    Makes change plain ((change.apply l).run s) := by
  cases change with
  | add m vouched => exact makes_add h m vouched
  | remove name => exact makes_remove h name
  | duplicate owner depth => exact makes_duplicate h owner depth

theorem holds_applyAll (h : s.Holds l plain) (changes : List ListChange) : ∃ last,
    AllPlainly changes plain ((applyAll l changes).run s).1.2 last ∧
      (s.after (applyAll l changes)).Holds ((applyAll l changes).run s).1.1 last := by
  induction changes generalizing s l plain with
  | nil => exact ⟨plain, .nil plain, h⟩
  | cons change rest ih =>
    obtain ⟨middle, hplainly, hmiddle⟩ := makes h change
    obtain ⟨last, hrest, hlast⟩ := ih hmiddle
    exact ⟨last, .cons hplainly hrest, hlast⟩

theorem apply_of_error {change : ListChange} {refusal : MemberError}
    (h : ((change.apply l).run s).1.2 = .error refusal) :
    (change.apply l).run s = ((l, .error refusal), s) := by
  cases change with
  | add m vouched =>
    change ((addToList l m vouched).run.run s).1 = _ at h
    change ((l, ((addToList l m vouched).run.run s).1), ((addToList l m vouched).run.run s).2) = _
    cases hadd : (s.list l).add m vouched with
    | error =>
      rw [run_addToList_of_error hadd] at h ⊢
      rw [h]
    | ok added =>
      rw [run_addToList_of_ok hadd] at h
      cases h
  | remove name =>
    change ((removeFromList l name).run.run s).1 = _ at h
    change ((l, ((removeFromList l name).run.run s).1), ((removeFromList l name).run.run s).2) = _
    cases hremove : (s.list l).remove name with
    | error =>
      rw [run_removeFromList_of_error hremove] at h ⊢
      rw [h]
    | ok removed =>
      rw [run_removeFromList_of_ok hremove] at h
      cases h
  | duplicate => cases h

/-- A list that was empty in the beginning and has been changed. -/
def make (changes : List ListChange) :
    StateM Store (ListId × List (Except MemberError (Option Member))) := do
  applyAll (← Store.addList .empty) changes

/-- A list made by changes cannot be told from the plain one that they make, and has the same
answers. A refused change does nothing to the store. -/
theorem exact_make :
    (∀ (changes : List ListChange) (s : Store), ∃ plain,
      AllPlainly changes [] ((make changes).run s).1.2 plain ∧
        ((s.after (make changes)).list ((make changes).run s).1.1).Exact plain) ∧
    ∀ (change : ListChange) (l : ListId) (s : Store) (refusal : MemberError),
      ((change.apply l).run s).1.2 = .error refusal →
        (change.apply l).run s = ((l, .error refusal), s) := by
  refine ⟨fun changes s => ?_, fun change l s refusal h => apply_of_error h⟩
  have hempty : (s.after (addList .empty)).Holds ⟨s.lists.size⟩ [] := holds_addList .empty
  obtain ⟨plain, hanswers, hholds⟩ := holds_applyAll hempty changes
  exact ⟨plain, hanswers, hholds.2.exact⟩

/-- A hidden member is replaced by one that is not, under the key that it leaves behind. -/
def respelling : List ListChange :=
  [.add ⟨.made 0, "Size", ⟨true, true, false, true⟩, none, .propertySet []⟩ false,
    .add ⟨.made 1, "Rank", ⟨true, true, false, true⟩, none, .propertySet []⟩ true,
    .add ⟨.made 2, "SIZE", .initial, none, .propertySet []⟩ false,
    .remove "psbase", .duplicate (some ⟨0⟩) 1, .remove "RANK"]

theorem exact_make_respelling :
    (((Store.empty.after (make respelling)).list ⟨1⟩).entries.map (·.1) = ["Size"] ∧
      ((Store.empty.after (make respelling)).list ⟨1⟩).members.map (·.name) = ["SIZE"] ∧
      ((Store.empty.after (make respelling)).list ⟨1⟩).hiddenCount = 0) ∧
    (∃ plain, AllPlainly respelling [] ((make respelling).run Store.empty).1.2 plain ∧
      ((Store.empty.after (make respelling)).list
        ((make respelling).run Store.empty).1.1).Exact plain) ∧
    ((remove "psbase").apply ⟨0⟩).run Store.empty =
      ((⟨0⟩, .error (.reservedName "psbase")), Store.empty) :=
  ⟨⟨by decide +kernel, by decide +kernel, by decide +kernel⟩, exact_make.1 respelling Store.empty,
    exact_make.2 (remove "psbase") ⟨0⟩ Store.empty _ rfl⟩

end ListChange

end DynamicMembers
