import DynamicMembers.Proofs.Store.StoredLists
import Mathlib.Data.List.Induction

/-! # Lists that have settled

Where members are put into a list one after another, the list comes to have each name once, at the
place where the name came first, with the member that came last under it
(`PlainList.foldl_put`). More members can be put into a list that has settled with the same result
as if all had been put into one list (`PlainList.settled_settled_append`).
-/
namespace DynamicMembers

namespace PlainList

/-- Each name once, at the place where it comes first, with the member that comes last under it. -/
def settled (members : List Member) : List Member :=
  (firstByName Member.name [] members).map fun first =>
    (named? members.reverse first.name).getD first

theorem named?_reverse_concat (members : List Member) (m : Member) (name : String) :
    named? (members ++ [m]).reverse name =
      if sameName m.name name then some m else named? members.reverse name := by
  rw [List.reverse_append, named?, List.reverse_singleton, List.singleton_append, List.find?_cons]
  cases sameName m.name name <;> rfl

/-- Where a name is met, it is met with the member that comes last under it. -/
theorem sameName_named? {members : List Member} (first : Member) :
    sameName ((named? members first.name).getD first).name first.name = true := by
  cases h : named? members first.name with
  | none => exact sameName_refl first.name
  | some m => simpa using List.find?_some h

theorem put_map {firsts : List Member} {f : Member → Member} {m : Member}
    (hf : ∀ first, sameName (f first).name first.name = true)
    (hdistinct : firsts.Pairwise fun a b => sameName a.name b.name = false) :
    put (firsts.map f) m =
      (firsts.map fun first => if sameName m.name first.name then m else f first) ++
        if firsts.any fun first => sameName first.name m.name then [] else [m] := by
  induction firsts with
  | nil => rfl
  | cons first rest ih =>
    obtain ⟨hfirst, hrest⟩ := List.pairwise_cons.mp hdistinct
    rw [List.map_cons, put_cons, sameName_congr_left (hf first), ih hrest, List.map_cons,
      List.any_cons, sameName_comm m.name first.name]
    by_cases hname : sameName first.name m.name = true
    · -- No other is of this name, so the rest stays.
      have hothers : (rest.map fun other => if sameName m.name other.name then m else f other) =
          rest.map f := by
        refine List.map_congr_left fun other hother => ?_
        rw [← sameName_congr_left hname, hfirst other hother]
        rfl
      simp [hname, hothers]
    · simp [hname]

theorem settled_concat (members : List Member) (m : Member) :
    settled (members ++ [m]) = put (settled members) m := by
  have hany : (firstByName Member.name [] members).any (fun first => sameName first.name m.name) =
      members.any fun other => sameName other.name m.name := by
    rw [← List.isSome_find?, ← List.isSome_find?,
      (caseless_sameName m.name).find?_firstByName (by simp)]
  have hclaimed : (members.map (foldCase ∘ Member.name) ++ []).contains (foldCase m.name) =
      members.any fun other => sameName other.name m.name := by
    rw [Bool.eq_iff_iff]
    simp [foldCase_eq_iff]
  have hlast : firstByName Member.name (members.map (foldCase ∘ Member.name) ++ []) [m] =
      if members.any fun other => sameName other.name m.name then [] else [m] := by
    rw [← hclaimed]
    rfl
  have hself : (named? (members ++ [m]).reverse m.name).getD m = m := by
    rw [named?_reverse_concat, if_pos (sameName_refl m.name)]
    rfl
  have hfirst (first : Member) : (named? (members ++ [m]).reverse first.name).getD first =
      if sameName m.name first.name then m
      else (named? members.reverse first.name).getD first := by
    rw [named?_reverse_concat]
    split <;> rfl
  rw [settled, settled, put_map (fun first => sameName_named? first) pairwise_firstByName,
    firstByName_append_eq, List.map_append, hany, hlast]
  simp only [hfirst]
  cases members.any fun other => sameName other.name m.name <;> simp

/-- What is put into an empty list, one after another, settles. -/
theorem foldl_put (members : List Member) : members.foldl put [] = settled members := by
  induction members using List.reverseRecOn with
  | nil => rfl
  | append_singleton members m ih =>
    rw [List.foldl_append, ih, settled_concat]
    rfl

theorem pairwise_settled (members : List Member) :
    (settled members).Pairwise fun a b => sameName a.name b.name = false := by
  refine List.pairwise_map.mpr (pairwise_firstByName.imp fun {a b} hab => ?_)
  rw [sameName_congr_left (sameName_named? a), sameName_congr_right (sameName_named? b), hab]

theorem mem_of_mem_settled {members : List Member} {m : Member} (h : m ∈ settled members) :
    m ∈ members := by
  obtain ⟨first, hfirst, rfl⟩ := List.mem_map.mp h
  cases hnamed : named? members.reverse first.name with
  | none => exact mem_of_mem_firstByName hfirst
  | some m => exact List.mem_reverse.mp (List.mem_of_find?_eq_some hnamed)

/-- A list of different names has settled. -/
theorem settled_of_pairwise {members : List Member}
    (h : members.Pairwise fun a b => sameName a.name b.name = false) :
    settled members = members := by
  induction members using List.reverseRecOn with
  | nil => rfl
  | append_singleton members m ih =>
    obtain ⟨hmembers, -, hlast⟩ := List.pairwise_append.mp h
    have hnew : (members.findIdx? fun old => sameName old.name m.name) = none :=
      List.findIdx?_eq_none_iff.mpr fun old hold => hlast old hold m (List.mem_singleton_self m)
    rw [settled_concat, ih hmembers, put, hnew]

/-- It does not matter when a list settles. -/
theorem settled_settled_append (members others : List Member) :
    settled (settled members ++ others) = settled (members ++ others) := by
  rw [← foldl_put (settled members ++ others), ← foldl_put (members ++ others), List.foldl_append,
    List.foldl_append, foldl_put, foldl_put, settled_of_pairwise (pairwise_settled members)]

theorem foldl_put_of_pairwise {members : List Member}
    (h : members.Pairwise fun a b => sameName a.name b.name = false) (others : List Member) :
    others.foldl put members = settled (members ++ others) := by
  rw [← foldl_put, List.foldl_append, foldl_put, settled_of_pairwise h]

/-- Members of different names stay where they are, or give way to later ones of their names. -/
theorem exists_settled_append {members : List Member}
    (h : members.Pairwise fun a b => sameName a.name b.name = false) (others : List Member) :
    ∃ placed added, settled (members ++ others) = placed ++ added ∧
      List.Forall₂ (fun old m => sameName old.name m.name = true) members placed := by
  rw [settled, firstByName_append (by simp) h, List.map_append]
  refine ⟨_, _, rfl, List.forall₂_map_right_iff.mpr (List.forall₂_same.mpr fun old _ => ?_)⟩
  rw [sameName_comm]
  exact sameName_named? old

end PlainList

namespace MemberList

theorem Refines.addAll {l l' : MemberList} {plain members : List Member} (hl : l.Refines plain)
    (h : l.addAll members = .ok l') : l'.Refines (members.foldl PlainList.put plain) := by
  induction members generalizing l plain with
  | nil =>
    cases h
    exact hl
  | cons m rest ih =>
    cases hadd : l.add m false with
    | error refusal => simp [MemberList.addAll, hadd, bind, Except.bind] at h
    | ok added =>
      obtain ⟨replaced, middle⟩ := added
      exact ih (hl.add hadd).2 (by simpa [MemberList.addAll, hadd, bind, Except.bind] using h)

theorem members_of_ofMembers {l : MemberList} {members : List Member}
    (h : ofMembers members = .ok l) : l.members = PlainList.settled members := by
  rw [(Refines.empty.addAll h).members, PlainList.foldl_put]

end MemberList

end DynamicMembers
