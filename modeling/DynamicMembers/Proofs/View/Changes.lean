import DynamicMembers.Proofs.Store.ListChanges
import DynamicMembers.Proofs.Store.Parts
import DynamicMembers.Proofs.View.ReservedNames

/-! # How a view is changed

An addition that is not refused does three things one after another: it makes a copy, it
puts the copy into the list of the view, and it tells of it. None of them can fail any
more (`View.run_add`). A removal writes the list once or not at all (`View.run_remove`).
-/
namespace DynamicMembers

/-- With a caller who vouches for the member, only the name is in the way. -/
theorem MemberList.exists_add (l : MemberList) {m : Member} (h : isReservedName m.name = false) :
    ∃ replaced members, l.add m true = .ok (replaced, members) := by
  exact ⟨_, _, (if_neg (by simp [h])).trans (if_neg (by simp))⟩

theorem MemberList.members_of_remove {l members : MemberList} {name : String}
    {removed : Option Member} (h : l.remove name = .ok (removed, members)) :
    members.members ⊆ l.members ∧ ∀ m ∈ removed, m ∈ l.members := by
  unfold remove at h
  split at h
  · cases h
  · cases h
    refine ⟨fun m hm => ?_, fun m hm => ?_⟩
    · obtain ⟨entry, hentry, rfl⟩ := List.mem_map.mp hm
      exact List.mem_map_of_mem (NameMap.mem_of_mem_erase hentry)
    · rw [find?, NameMap.lookup_eq_find?] at hm
      obtain ⟨entry, hentry, rfl⟩ := Option.map_eq_some_iff.mp hm
      exact List.mem_map_of_mem (List.mem_of_find?_eq_some hentry)

namespace View

open Store

variable {s u : Store} {v : View} {m copy : Member} {vouched : Bool} {l : ListId}

theorem enlarges_handOut (v : View) (x : Sighting) : Within Enlarges (v.handOut x) := by
  unfold handOut
  split
  · exact enlarges_nextMemberId
  · exact fun s => Coherent.refl s
  · exact fun s => Coherent.refl s
  · exact enlarges_copyFor v.owner? x.member
  · exact enlarges_copyFor v.owner? x.member

theorem not_reserved_of_addRefusal? (h : v.addRefusal? s m vouched = none) :
    isReservedName m.name = false := by
  unfold addRefusal? at h
  split at h
  · cases h
  · split at h
    · cases h
    · simpa using ‹¬isReservedName m.name = true›

theorem not_locked_of_addRefusal? (h : v.addRefusal? s m vouched = none) :
    v.isReadOnly = false := by
  unfold addRefusal? at h
  split at h
  · cases h
  · simpa using ‹¬v.isReadOnly = true›

theorem add_of_no_list (h : v.addRefusal? s m vouched = none) (hl : v.list? s = none) :
    (v.add m vouched).run.run s = (.error (.invalidOperation m.name .noMemberList), s) := by
  rw [add, run_read_then, h, hl]
  rfl

theorem after_announce (v : View) (name : String) (s : Store) :
    s.after (v.announce name) =
      if v.checksDeclarations then
        match v.owner? with
        | some o => s.announce (s.typeNames o) name
        | none => s
      else s := by
  unfold announce
  cases v.owner? <;> cases v.checksDeclarations <;> rfl

theorem exists_announced (v : View) (name : String) (s : Store) :
    ∃ announced, s.after (v.announce name) = { s with announced := announced } := by
  rw [after_announce]
  split
  · split
    · exact ⟨_, rfl⟩
    · exact ⟨_, rfl⟩
  · exact ⟨_, rfl⟩

theorem run_add (h : v.addRefusal? s m vouched = none) (hl : v.list? s = some l)
    (hcopy : (copyFor (v.owner?.or m.owner) m).run s = (copy, u)) :
    ∃ replaced members, (u.list l).add copy true = .ok (replaced, members) ∧
      (v.add m vouched).run.run s =
        (.ok copy, (u.setList l members).after (v.announce copy.name)) := by
  have hname : copy.name = m.name := by
    have := (isCopy_copyFor (v.owner?.or m.owner) m s).name
    rwa [hcopy] at this
  obtain ⟨replaced, members, hadd⟩ := (u.list l).exists_add (m := copy)
    (by rw [hname, not_reserved_of_addRefusal? h])
  refine ⟨replaced, members, hadd, ?_⟩
  rw [add, run_read_then, h, hl]
  dsimp only
  rw [run_lift_then, hcopy, run_then_of_ok (run_addToList_of_ok hadd), run_lift_then]
  rfl

theorem add_cases (v : View) (m : Member) (vouched : Bool) (s : Store) :
    (∃ refusal, (v.add m vouched).run.run s = (.error refusal, s)) ∨
    ∃ l copy u replaced members announced, v.list? s = some l ∧
      (copyFor (v.owner?.or m.owner) m).run s = (copy, u) ∧
      (u.list l).add copy true = .ok (replaced, members) ∧
      (v.add m vouched).run.run s =
        (.ok copy, { u.setList l members with announced := announced }) := by
  cases hrefusal : v.addRefusal? s m vouched with
  | some refusal => exact .inl ⟨refusal, add_of_refusal hrefusal⟩
  | none =>
    cases hl : v.list? s with
    | none => exact .inl ⟨_, add_of_no_list hrefusal hl⟩
    | some l =>
      obtain ⟨⟨copy, u⟩, hcopy⟩ : ∃ made, (copyFor (v.owner?.or m.owner) m).run s = made :=
        ⟨_, rfl⟩
      obtain ⟨replaced, members, hadd, hrun⟩ := run_add hrefusal hl hcopy
      obtain ⟨announced, hannounced⟩ := v.exists_announced copy.name (u.setList l members)
      rw [hannounced] at hrun
      exact .inr ⟨l, copy, u, replaced, members, announced, rfl, hcopy, hadd, hrun⟩

/-- An addition makes cells, lists and members, writes one list, and tells of it. -/
theorem after_add (v : View) (m : Member) (vouched : Bool) (s : Store) :
    s.after (v.add m vouched).run = s ∨ ∃ u l members announced, s.Enlarges u ∧
      s.after (v.add m vouched).run = { u.setList l members with announced := announced } := by
  rcases v.add_cases m vouched s with ⟨refusal, hrun⟩ |
    ⟨l, copy, u, replaced, members, announced, -, hcopy, -, hrun⟩
  · exact .inl (congrArg Prod.snd hrun)
  · have hu := enlarges_copyFor (v.owner?.or m.owner) m s
    rw [after, hcopy] at hu
    exact .inr ⟨u, l, members, announced, hu, congrArg Prod.snd hrun⟩

theorem run_remove (v : View) (name : String) (s : Store) :
    (∃ outcome, (v.remove name).run.run s = (outcome, s) ∧
      ∀ removed, outcome = .ok removed → removed = none) ∨
    ∃ l removed members, v.list? s = some l ∧
      (s.list l).remove name = .ok (removed, members) ∧
      (v.remove name).run.run s = (.ok removed, s.setList l members) := by
  cases hrefusal : v.removeRefusal? s name with
  | some refusal =>
    exact .inl ⟨_, remove_of_refusal hrefusal, fun _ h => by cases h⟩
  | none =>
    cases hl : v.list? s with
    | none =>
      refine .inl ⟨.ok none, ?_, fun _ h => by cases h; rfl⟩
      rw [remove, run_read_then, hrefusal, hl]
      rfl
    | some l =>
      have hrun : (v.remove name).run.run s = (removeFromList l name).run.run s := by
        rw [remove, run_read_then, hrefusal, hl]
      rw [hrun]
      cases hremove : (s.list l).remove name with
      | error refusal =>
        exact .inl ⟨_, run_removeFromList_of_error hremove, fun _ h => by cases h⟩
      | ok removed =>
        exact .inr ⟨l, removed.1, removed.2, rfl, hremove, run_removeFromList_of_ok hremove⟩

end View

end DynamicMembers
