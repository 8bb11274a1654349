import DynamicMembers.Proofs.View.Contents

/-! # Members of objects

Objects get their members one by one, and each is a copy that stands on new parts at every
level. So whatever has been done, no two members in the lists of objects have a part in
common (`World.Reachable.separate`): what is written in one of them is not seen in another.
-/
namespace DynamicMembers

/-- No two members that objects have in their lists have a part in common. -/
structure Store.Separate (s : Store) : Prop where
  within : ∀ o state, s.object? o = some state →
    (s.list state.members).members.Pairwise fun m other => s.Apart m other
  across : ∀ o k state other, s.object? o = some state → s.object? k = some other → o ≠ k →
    ∀ m ∈ (s.list state.members).members, ∀ m' ∈ (s.list other.members).members, s.Apart m m'

/-! ## Lists -/

namespace PlainList

variable {plain : List Member} {m other : Member}

theorem mem_of_mem_put (h : other ∈ put plain m) : other = m ∨ other ∈ plain := by
  induction plain with
  | nil => exact .inl (List.mem_singleton.mp h)
  | cons first rest ih =>
    rw [put_cons] at h
    split at h
    · exact (List.mem_cons.mp h).imp_right (List.mem_cons_of_mem first)
    · rcases List.mem_cons.mp h with rfl | h
      · exact .inr List.mem_cons_self
      · exact (ih h).imp_right (List.mem_cons_of_mem first)

theorem pairwise_put {R : Member → Member → Prop} (h : plain.Pairwise R)
    (hm : ∀ old ∈ plain, R old m ∧ R m old) : (put plain m).Pairwise R := by
  induction plain with
  | nil => exact List.pairwise_singleton R m
  | cons first rest ih =>
    obtain ⟨hfirst, hrest⟩ := List.pairwise_cons.mp h
    obtain ⟨hnew, hothers⟩ := List.forall_mem_cons.mp hm
    rw [put_cons]
    split
    · exact .cons (fun old hold => (hothers old hold).2) hrest
    · refine .cons (fun old hold => ?_) (ih hrest hothers)
      rcases mem_of_mem_put hold with rfl | hold
      · exact hnew.1
      · exact hfirst old hold

end PlainList

theorem NameMap.erase_sublist {α : Type} (name : String) (m : NameMap α) :
    (NameMap.erase name m).Sublist m := by
  induction m with
  | nil => exact .slnil
  | cons entry rest ih =>
    rw [NameMap.erase]
    split
    · exact List.sublist_cons_self entry rest
    · exact ih.cons_cons entry

theorem MemberList.sublist_of_remove {l members : MemberList} {name : String}
    {removed : Option Member} (h : l.remove name = .ok (removed, members)) :
    members.members.Sublist l.members := by
  unfold remove at h
  split at h
  · cases h
  · cases h
    exact (NameMap.erase_sublist name l.entries).map _

namespace Store

variable {Γ : Ledger} {s t : Store} {m other copy : Member} {l : ListId}

theorem Apart.symm (h : s.Apart m other) : s.Apart other m :=
  fun p hp hshared => h p hshared hp

theorem Spans.exists_nests (h : s.Spans m (.list l)) :
    ∃ k, m.kind.list? = some k ∧ Relation.ReflTransGen s.Nests k l := by
  generalize hp : Part.list l = p at h
  induction h with
  | own hown =>
    subst hp
    have hl : Part.list l ∈ Member.own _ := hown
    exact ⟨l, by simpa [Member.own] using hl, .refl⟩
  | @nested m nested k p hk hnested _ ih =>
    obtain ⟨inner, hinner, hnests⟩ := ih hp
    exact ⟨k, hk, .head ⟨nested, hnested, hinner⟩ hnests⟩

/-- A list is not nested in one of its members. -/
theorem Sound.not_spans_of_mem (hs : s.Sound Γ) (hm : m ∈ (s.list l).members) :
    ¬ s.Spans m (.list l) := by
  intro hspans
  obtain ⟨k, hk, hnests⟩ := hspans.exists_nests
  obtain ⟨levels, hlevels⟩ := hs.levels l m hm
  exact hlevels.not_nests_self hk (.tail' hnests ⟨m, hm, hk⟩)

theorem Sound.not_spans_of_base {o : ObjectId} (hs : s.Sound Γ) (hm : m.Genuine Γ s)
    (hl : Γ (.list l) = .base o) : ¬ s.Spans m (.list l) := by
  intro hspans
  obtain ⟨owner, howned⟩ := hs.owned_of_spans hm hspans
  cases hl.symm.trans howned

/-! ## Where nothing is added -/

/-- No list that was there has got another member, and new objects have none yet. -/
structure Thins (s t : Store) : Prop where
  lists : ∀ l, s.Has (.list l) → (t.list l).members.Sublist (s.list l).members
  objects : ∀ o state, t.object? o = some state →
    (∃ old, s.object? o = some old ∧ old.members = state.members) ∨
      (t.list state.members).members = []

namespace Thins

theorem of_lists (hlists : ∀ l, s.Has (.list l) → t.list l = s.list l)
    (hobjects : ∀ o state, t.object? o = some state →
      ∃ old, s.object? o = some old ∧ old.members = state.members) : s.Thins t :=
  ⟨fun l hl => by rw [hlists l hl], fun o state ho => .inl (hobjects o state ho)⟩

theorem of_same (hlists : t.lists = s.lists) (hobjects : t.objects = s.objects) : s.Thins t :=
  .of_lists (fun _ _ => by rw [list, list, hlists]) fun o state ho =>
    ⟨state, by rwa [← object?_congr hobjects], rfl⟩

theorem of_enlarges (h : s.Enlarges t) : s.Thins t :=
  .of_lists (fun _ => h.list) fun o state ho => ⟨state, by rwa [← object?_congr h.objects], rfl⟩

theorem setObject {o : ObjectId} {old state : ObjectState} (ho : s.object? o = some old)
    (hstate : old.Becomes state) : s.Thins (s.setObject o state) := by
  refine .of_lists (fun _ _ => rfl) fun k changed hk => ?_
  rw [object?_setObject ho] at hk
  split at hk
  next hsame =>
    subst hsame
    cases hk
    exact ⟨old, ho, hstate.members.symm⟩
  next => exact ⟨changed, hk, rfl⟩

theorem of_becomes {o : ObjectId} (h : t = s ∨ ∃ old state, s.object? o = some old ∧
    old.Becomes state ∧ t = s.setObject o state) : s.Thins t := by
  rcases h with rfl | ⟨old, state, ho, hstate, rfl⟩
  · exact .of_same rfl rfl
  · exact .setObject ho hstate

theorem remove (v : View) (name : String) : Within Thins (v.remove name).run := by
  intro s
  rcases v.run_remove name s with ⟨outcome, hrun, -⟩ | ⟨l, removed, members, -, hremove, hrun⟩
  · rw [after, hrun]
    exact .of_same rfl rfl
  · rw [after, hrun]
    refine ⟨fun k hk => ?_, fun o state ho => .inl ⟨state, ho, rfl⟩⟩
    by_cases hkl : k = l
    · subst hkl
      rw [list_setList_self members hk]
      exact MemberList.sublist_of_remove hremove
    · rw [list_setList_of_ne hkl]

theorem wrapAs (v : Value) (typeNames : List String) : Within Thins (Store.wrapAs v typeNames) := by
  intro s
  have hmade := enlarges_addList .empty (s.after (addCell v))
  refine ⟨fun l hl => ?_, fun o state ho => ?_⟩
  · show (((s.after (addCell v)).after (addList .empty)).list l).members.Sublist _
    rw [hmade.list hl]
    exact .refl _
  · have hnew : ((s.after (addCell v)).after (addList .empty)).list ⟨s.lists.size⟩ = .empty :=
      list_addList_self (s.after (addCell v)) .empty
    rcases object?_wrapAs_cases ho with hold | ⟨-, rfl⟩
    · exact .inl ⟨state, hold, rfl⟩
    · exact .inr (congrArg MemberList.members hnew)

end Thins

/-- A member that keeps its lists, or has less in them, has nothing that it did not have. -/
theorem Sound.spans_of_thins {p : Part} (hs : s.Sound Γ) (h : s.Thins t)
    (hm : m ∈ (s.list l).members) (hp : t.Spans m p) : s.Spans m p := by
  obtain ⟨_, hfits⟩ := (hs.lists l m hm).exists_fits
  exact (hs.spans_cases (R := fun _ _ => False) hfits
    (fun l hl nested hnested => .inl ((h.lists l hl).subset hnested)) hp).resolve_right
      fun ⟨_, _, hnew, _⟩ => hnew

theorem Sound.separate_of_thins (hs : s.Sound Γ) (hseparate : s.Separate) (h : s.Thins t) :
    t.Separate := by
  have hbefore {o : ObjectId} {state : ObjectState} (ho : t.object? o = some state) :
      (∃ old, s.object? o = some old ∧ old.members = state.members ∧
        (t.list state.members).members.Sublist (s.list state.members).members) ∨
      (t.list state.members).members = [] := by
    refine (h.objects o state ho).imp_left fun ⟨old, hold, hmembers⟩ => ⟨old, hold, hmembers, ?_⟩
    obtain ⟨-, hthere, -⟩ := hs.objects o old hold
    exact h.lists _ (hmembers ▸ hthere)
  constructor
  case within =>
    intro o state ho
    rcases hbefore ho with ⟨old, hold, hmembers, hsublist⟩ | hnone
    · refine ((hmembers ▸ hseparate.within o old hold).sublist hsublist).imp_of_mem ?_
      intro m other hm hother hapart p hp hshared
      exact hapart p (hs.spans_of_thins h (hsublist.subset hm) hp)
        (hs.spans_of_thins h (hsublist.subset hother) hshared)
    · rw [hnone]
      exact .nil
  case across =>
    intro o k state other ho hk hdiffer m hm m' hm' p hp hshared
    rcases hbefore ho with ⟨old, hold, hmembers, hsublist⟩ | hnone
    · rcases hbefore hk with ⟨old', hold', hmembers', hsublist'⟩ | hnone
      · replace hm := hsublist.subset hm
        replace hm' := hsublist'.subset hm'
        exact hseparate.across o k old old' hold hold' hdiffer m (hmembers ▸ hm) m'
          (hmembers' ▸ hm') p (hs.spans_of_thins h hm hp) (hs.spans_of_thins h hm' hshared)
      · rw [hnone] at hm'
        cases hm'
    · rw [hnone] at hm
      cases hm

/-! ## Where a copy is added -/

section

variable (hs : s.Sound Γ) (hlists : ∀ k, s.Has (.list k) → ∀ nested ∈ (t.list k).members,
    nested ∈ (s.list k).members ∨ k = l ∧ nested = copy)
  (hcopy : ∀ p, t.Spans copy p → ¬ s.Has p)
include hs hlists hcopy

/-- Two members can not both have the list that has got the copy, so one of them is as it was. -/
theorem Sound.apart_of_added {h h' : Holder} (hm : m.Fits Γ s h) (hother : other.Fits Γ s h')
    (hapart : s.Apart m other) : t.Apart m other := by
  intro p hp hshared
  have hmine := hs.spans_cases (R := fun k nested => k = l ∧ nested = copy) hm hlists hp
  have hothers :=
    hs.spans_cases (R := fun k nested => k = l ∧ nested = copy) hother hlists hshared
  rcases hmine with hold | ⟨_, _, ⟨rfl, rfl⟩, hl, hnew⟩ <;>
    rcases hothers with hold' | ⟨_, _, ⟨rfl, rfl⟩, hl', hnew'⟩
  · exact hapart p hold hold'
  · exact hcopy p hnew' (hs.has_of_spans hm hold)
  · exact hcopy p hnew (hs.has_of_spans hother hold')
  · exact hapart _ hl hl'

/-- The copy has no part of a member beside it, since that does not have the list. -/
theorem Sound.apart_copy (hm : m ∈ (s.list l).members) : t.Apart m copy := by
  intro p hp hshared
  obtain ⟨_, hfits⟩ := (hs.lists l m hm).exists_fits
  rcases hs.spans_cases (R := fun k nested => k = l ∧ nested = copy) hfits hlists hp with
    hold | ⟨_, _, ⟨rfl, -⟩, hl, -⟩
  · exact hcopy p hshared (hs.has_of_spans hfits hold)
  · exact hs.not_spans_of_mem hm hl

/-- Nor has the copy in the list of an object a part of a member of another object. -/
theorem Sound.apart_copy_of_base {k : ListId} {o o' : ObjectId} (hk : Γ (.list k) = .base o')
    (hm : m ∈ (s.list k).members) (hl : Γ (.list l) = .base o) : t.Apart m copy := by
  intro p hp hshared
  have hgenuine := (hs.lists k m hm).genuine (by rw [hk]; nofun)
  obtain ⟨_, hfits⟩ := hgenuine.exists_owner
  rcases hs.spans_cases (R := fun k nested => k = l ∧ nested = copy) hfits hlists hp with
    hold | ⟨_, _, ⟨rfl, -⟩, hspans, -⟩
  · exact hcopy p hshared (hs.has_of_spans hfits hold)
  · exact hs.not_spans_of_base hgenuine hl hspans

end

theorem Sound.separate_of_added {v : View} (hs : s.Sound Γ) (hseparate : s.Separate)
    (h : v.Added s t l m copy) : t.Separate := by
  have hfresh (p : Part) : t.Spans copy p → ¬ s.Has p := (h.apart p).2
  have hlists (k : ListId) (hk : s.Has (.list k)) (nested : Member)
      (hnested : nested ∈ (t.list k).members) :
      nested ∈ (s.list k).members ∨ k = l ∧ nested = copy := by
    by_cases hkl : k = l
    · subst hkl
      rw [h.list] at hnested
      exact (PlainList.mem_of_mem_put hnested).symm.imp_right (⟨rfl, ·⟩)
    · rw [h.keeps.list (by simpa using hkl) hk] at hnested
      exact .inl hnested
  have hobjects {o : ObjectId} {state : ObjectState} (ho : t.object? o = some state) :
      s.object? o = some state := by
    rwa [object?_congr (by rw [h.rest])] at ho
  -- What was there before is as far from each other as it was.
  have hold {k k' : ListId} {m other : Member} (hm : m ∈ (s.list k).members)
      (hother : other ∈ (s.list k').members) (hapart : s.Apart m other) : t.Apart m other :=
    have ⟨_, hfits⟩ := (hs.lists _ _ hm).exists_fits
    have ⟨_, hfits'⟩ := (hs.lists _ _ hother).exists_fits
    hs.apart_of_added hlists hfresh hfits hfits' hapart
  constructor
  case within =>
    intro o state ho
    obtain ⟨-, hthere, -⟩ := hs.objects o state (hobjects ho)
    have hbefore : (s.list state.members).members.Pairwise fun m other => t.Apart m other :=
      (hseparate.within o state (hobjects ho)).imp_of_mem hold
    by_cases hl : state.members = l
    · subst hl
      rw [h.list]
      refine PlainList.pairwise_put hbefore fun old hmem => ?_
      have hapart := hs.apart_copy hlists hfresh hmem
      exact ⟨hapart, hapart.symm⟩
    · rw [h.keeps.list (by simpa using hl) hthere]
      exact hbefore
  case across =>
    intro o k state other ho hk hdiffer m hm m' hm'
    obtain ⟨-, hthere, hbase⟩ := hs.objects o state (hobjects ho)
    obtain ⟨-, hthere', hbase'⟩ := hs.objects k other (hobjects hk)
    rcases hlists _ hthere m hm with hm | ⟨rfl, rfl⟩ <;>
      rcases hlists _ hthere' m' hm' with hm' | ⟨hsame, rfl⟩
    · exact hold hm hm' (hseparate.across o k state other (hobjects ho) (hobjects hk) hdiffer m hm
        m' hm')
    · exact hs.apart_copy_of_base hlists hfresh hbase hm (hsame ▸ hbase')
    · exact (hs.apart_copy_of_base hlists hfresh hbase' hm' hbase).symm
    · rw [hsame, hbase] at hbase'
      exact absurd (Holder.base.inj hbase') hdiffer

end Store

/-! ## Runs -/

namespace World

open Store (Thins)

variable {w w' : World}

/-- A deed that adds nothing to a view adds nothing to a list. -/
theorem Deed.thins_or_adds {sharing : Bool} (h : Deed sharing w w') : w.store.Thins w'.store ∨
    ∃ (v : View) (m : Member) (vouched : Bool), w.Sees v ∧ m ∈ w.members ∧
      w'.store = w.store.after (v.add m vouched).run := by
  cases h with
  | @add v m hv hm vouched => exact .inr ⟨v, m, vouched, hv, hm, rfl⟩
  | keep | share => exact .inl (.of_enlarges (Store.enlarges_addCell _ _))
  | group hm h inherits => exact .inl (.of_enlarges (Store.enlarges_addList _ _))
  | @define kind name hk =>
    refine .inl ?_
    unfold gain Store.after Member.define
    split <;> exact .of_same rfl rfl
  | copy hm ho => exact .inl (.of_enlarges (Store.enlarges_copyFor _ _ w.store))
  | @get v adapter xs hv hx =>
    exact .inl (.of_enlarges (Store.Within.mapM v.enlarges_handOut xs w.store))
  | @remove v hv name => exact .inl (Thins.remove v name w.store)
  | wrap hv typeNames => exact .inl (Thins.wrapAs _ typeNames w.store)
  | insertTypeName o name => exact .inl (.of_becomes (w.store.insertTypeName_cases o name))
  | release o => exact .inl (.of_becomes (w.store.release_cases o))
  | _ => exact .inl (.of_same rfl rfl)

theorem Deed.separate {sharing : Bool} (hw : w.Reachable) (hseparate : w.store.Separate)
    (h : Deed sharing w w') : w'.store.Separate := by
  obtain ⟨Γ, hsound, -⟩ := hw.sound
  rcases h.thins_or_adds with hthins | ⟨v, m, vouched, hv, hm, hafter⟩
  · exact hsound.store.separate_of_thins hseparate hthins
  · rw [hafter]
    cases hrefusal : v.addRefusal? w.store m vouched with
    | some refusal =>
      rw [Store.after, View.add_of_refusal hrefusal]
      exact hseparate
    | none =>
      obtain ⟨l, copy, t, -, hrun, hadded⟩ := hv.added hw hm hrefusal
      rw [Store.after, hrun]
      exact hsound.store.separate_of_added hseparate hadded

/-- What is done to the types of the model leaves the objects alone. -/
theorem Change.separate (hw : w.Reachable) (hseparate : w.store.Separate) (h : Change w w') :
    w'.store.Separate := by
  obtain ⟨Γ, hsound, -⟩ := hw.sound
  cases h with
  | deed h => exact h.separate hw hseparate
  | declareType name => exact hsound.store.separate_of_thins hseparate (.of_same rfl rfl)
  | @declare m hm typeName =>
    refine hsound.store.separate_of_thins hseparate ?_
    show w.store.Thins (w.store.after (Store.declare typeName m).run)
    rw [Store.declare, Store.after_read_then]
    split <;> exact .of_same rfl rfl
  | load env text =>
    obtain ⟨outcome, t, hrun, hloaded, -⟩ := env.loads_loadTypes text
      (hsound.store.agree (Ledger.agrees_awaiting (h := .template))) Ledger.awaits_awaiting
    refine hsound.store.separate_of_thins hseparate ?_
    show w.store.Thins (w.store.after (env.loadTypes text).run)
    rw [Store.after, hrun]
    exact .of_lists (fun _ => hloaded.keeps.list trivial) fun o state ho =>
      ⟨state, by rwa [← Store.object?_congr hloaded.objects], rfl⟩

/-- Whatever has been done, no two members of objects have a part in common. -/
theorem Reachable.separate (hw : w.Reachable) : w.store.Separate := by
  refine hw.induction (fun _ => ⟨nofun, nofun⟩) (fun hw ih h => h.separate hw ih)
    fun hcovers ih => ?_
  rwa [← hcovers.store]

end World

end DynamicMembers
