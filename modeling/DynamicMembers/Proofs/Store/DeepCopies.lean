import DynamicMembers.Proofs.Store.Parts
import Mathlib.Data.List.Perm.Subperm
import Mathlib.Logic.Relation

/-! # Copies to the last level

A member is grounded if it and the members nested in it, at every level, stand on parts
that the store has, and there are no more levels than stated. The lists on the way down
are all different, so the number of lists in the store bounds the levels
(`Store.Grounded.bounded`).

That is the bound with which members are copied. So a copy is a copy all the way down:
every level has parts that the store did not have, with the same names, the same flags
and the same stored values (`Store.DeepCopy`).
-/
namespace DynamicMembers

theorem forall₂_imp_mem {α β : Type} {R S : α → β → Prop} {as : List α} {bs : List β}
    (h : ∀ a ∈ as, ∀ b, R a b → S a b) (has : List.Forall₂ R as bs) : List.Forall₂ S as bs :=
  ((List.forall₂_and_left as bs).mpr ⟨fun _ ha => ha, has⟩).imp fun a b hab => h a hab.1 b hab.2

namespace Store

/-! ## Levels -/

/-- The parts of the member and of all that is nested in it are there, in at most so many
levels of lists. -/
def Grounded (s : Store) : Nat → Member → Prop
  | 0, m => (∀ p ∈ m.kind.own, s.Has p) ∧ m.kind.list? = none
  | levels + 1, m => (∀ p ∈ m.kind.own, s.Has p) ∧
    ∀ l ∈ m.kind.list?, ∀ nested ∈ (s.list l).members, s.Grounded levels nested

def Nests (s : Store) (l k : ListId) : Prop :=
  ∃ m ∈ (s.list l).members, m.kind.list? = some k

variable {s t u : Store} {levels more : Nat} {m other : Member}

namespace Grounded

theorem has (h : s.Grounded levels m) : ∀ p ∈ m.kind.own, s.Has p := by
  cases levels with
  | zero => exact h.1
  | succ levels => exact h.1

theorem of_list?_eq_none (hown : ∀ p ∈ m.kind.own, s.Has p) (h : m.kind.list? = none) :
    s.Grounded levels m := by
  cases levels with
  | zero => exact ⟨hown, h⟩
  | succ levels => exact ⟨hown, by simp [h]⟩

theorem mono (h : s.Grounded levels m) (hmore : levels ≤ more) : s.Grounded more m := by
  induction levels generalizing m more with
  | zero => exact .of_list?_eq_none h.1 h.2
  | succ levels ih =>
    obtain ⟨more, rfl⟩ : ∃ k, more = k + 1 := ⟨more - 1, by omega⟩
    exact ⟨h.1, fun l hl nested hnested => ih (h.2 l hl nested hnested) (by omega)⟩

theorem nested {l : ListId} (h : s.Grounded levels m) (hl : m.kind.list? = some l) :
    ∃ fewer, ∀ nested ∈ (s.list l).members, s.Grounded fewer nested := by
  cases levels with
  | zero => exact absurd (h.2.symm.trans hl) (by simp)
  | succ levels => exact ⟨levels, h.2 l hl⟩

/-- Where lists have got new members there are more levels, but no more than those of the new
members in addition. -/
theorem extend {n : Nat} (h : s.Grounded levels m) (hhas : ∀ {p}, s.Has p → t.Has p)
    (hlists : ∀ l, s.Has (.list l) → ∀ nested ∈ (t.list l).members,
      nested ∈ (s.list l).members ∨ t.Grounded n nested) :
    t.Grounded (levels + n) m := by
  induction levels generalizing m with
  | zero => exact .of_list?_eq_none (fun p hp => hhas (h.1 p hp)) h.2
  | succ levels ih =>
    rw [Nat.succ_add]
    refine ⟨fun p hp => hhas (h.1 p hp), fun l hl nested hnested => ?_⟩
    rcases hlists l (h.1 _ (MemberKind.list_mem_own.mpr hl)) nested hnested with hold | hnew
    · exact ih (h.2 l hl nested hold)
    · exact hnew.mono (Nat.le_add_left n levels)

theorem of_subset (h : s.Grounded levels m) (hhas : ∀ {p}, s.Has p → t.Has p)
    (hlists : ∀ l, s.Has (.list l) → (t.list l).members ⊆ (s.list l).members) :
    t.Grounded levels m :=
  h.extend (n := 0) hhas fun l hl _ hnested => .inl (hlists l hl hnested)

theorem enlarge (h : s.Grounded levels m) (ht : s.Enlarges t) : t.Grounded levels m :=
  h.of_subset ht.has fun _ hl _ hnested => by rwa [← ht.list hl]

/-- No list is nested in itself. -/
theorem not_nests_self {l : ListId} (h : s.Grounded levels m) (hl : m.kind.list? = some l) :
    ¬ Relation.TransGen s.Nests l l := by
  induction levels generalizing m l with
  | zero => exact absurd (h.2.symm.trans hl) (by simp)
  | succ levels ih =>
    intro hcycle
    obtain ⟨k, ⟨nested, hnested, hk⟩, hback⟩ := Relation.TransGen.head'_iff.mp hcycle
    refine ih (h.2 l hl nested hnested) hk ?_
    exact Relation.TransGen.tail' hback ⟨nested, hnested, hk⟩

/-- There are no more levels than lists that have not been passed on the way down. -/
theorem bounded_below {passed : List ListId} {rest : Nat} (h : s.Grounded levels m)
    (hpassed : passed.Nodup) (hthere : ∀ l ∈ passed, s.Has (.list l))
    (hdown : ∀ l ∈ passed, ∀ k ∈ m.kind.list?, Relation.TransGen s.Nests l k)
    (hrest : s.lists.size ≤ passed.length + rest) : s.Grounded rest m := by
  induction levels generalizing m passed rest with
  | zero => exact .of_list?_eq_none h.1 h.2
  | succ levels ih =>
    cases hl : m.kind.list? with
    | none => exact .of_list?_eq_none h.1 hl
    | some l =>
      have hnew : l ∉ passed := fun hl' => h.not_nests_self hl (hdown l hl' l hl)
      have hnodup : (l :: passed).Nodup := List.nodup_cons.mpr ⟨hnew, hpassed⟩
      have hlists : ∀ k ∈ l :: passed, s.Has (.list k) :=
        List.forall_mem_cons.mpr ⟨h.1 _ (MemberKind.list_mem_own.mpr hl), hthere⟩
      have hlength : (l :: passed).length ≤ s.lists.size := by
        have hsubset : l :: passed ⊆ (List.range s.lists.size).map ListId.mk := fun k hk =>
          List.mem_map.mpr ⟨k.index, List.mem_range.mpr (hlists k hk), rfl⟩
        simpa using (hnodup.subperm hsubset).length_le
      rw [List.length_cons] at hlength
      obtain ⟨rest, rfl⟩ : ∃ k, rest = k + 1 := ⟨rest - 1, by omega⟩
      refine ⟨h.1, fun l' hl' nested hnested => ?_⟩
      obtain rfl : l = l' := Option.some.inj (hl.symm.trans hl')
      refine ih (h.2 l hl nested hnested) hnodup hlists (fun a ha k hk => ?_)
        (by rw [List.length_cons]; omega)
      have hstep : s.Nests l k := ⟨nested, hnested, hk⟩
      rcases List.mem_cons.mp ha with rfl | ha
      · exact .single hstep
      · exact (hdown a ha l hl).tail hstep

theorem bounded (h : s.Grounded levels m) : s.Grounded s.lists.size m :=
  h.bounded_below .nil (by simp) (by simp) (by simp)

end Grounded

/-! ## Copies -/

/-- The member in the second store is a copy of that in the first: its parts are new, and the
same value is stored in it. -/
structure FreshCopy (s t : Store) (owner : Option ObjectId) (m other : Member) : Prop
    extends m.IsCopy owner other where
  made : ∃ serial, other.id = .made serial
  fresh : ∀ p ∈ other.own, ¬ s.Has p ∧ t.Has p
  stored : ∀ c ∈ m.kind.cell?, ∀ k ∈ other.kind.cell?, t.cell k = s.cell c

/-- The list in the second store has copies of what is in the list of the first, in the same
order and under the same keys. -/
structure ListCopy (s t : Store) (copied : Member → Member → Prop) (l k : ListId) : Prop where
  hidden : (t.list k).hiddenCount = (s.list l).hiddenCount
  entries : List.Forall₂ (fun entry other => other.1 = entry.1 ∧ copied entry.2 other.2)
    (s.list l).entries (t.list k).entries

/-- The member in the second store is a copy of that in the first, and so is what is nested in
it, in at most so many levels. -/
def DeepCopy (s t : Store) (owner : Option ObjectId) : Nat → Member → Member → Prop
  | 0, m, other => s.FreshCopy t owner m other ∧ m.kind.list? = none
  | levels + 1, m, other => s.FreshCopy t owner m other ∧
    ∀ l ∈ m.kind.list?, ∀ k ∈ other.kind.list?,
      s.ListCopy t (s.DeepCopy t owner levels) l k

variable {owner : Option ObjectId}

namespace DeepCopy

theorem freshCopy (h : s.DeepCopy t owner levels m other) : s.FreshCopy t owner m other := by
  cases levels with
  | zero => exact h.1
  | succ levels => exact h.1

theorem of_list?_eq_none (h : s.FreshCopy t owner m other) (hl : m.kind.list? = none) :
    s.DeepCopy t owner levels m other := by
  cases levels with
  | zero => exact ⟨h, hl⟩
  | succ levels => exact ⟨h, by simp [hl]⟩

theorem nested {l k : ListId} (h : s.DeepCopy t owner levels m other) (hl : m.kind.list? = some l)
    (hk : other.kind.list? = some k) : ∃ fewer, s.ListCopy t (s.DeepCopy t owner fewer) l k := by
  cases levels with
  | zero => exact absurd (h.2.symm.trans hl) (by simp)
  | succ levels => exact ⟨levels, h.2 l hl k hk⟩

/-- A copy of what was there before, made in a store that has more by now, and looked at when
nothing that was made since the beginning has changed. -/
theorem transfer {s' t' : Store} {bound : Nat} (h : s'.DeepCopy t owner levels m other)
    (hm : s.Grounded bound m) (hs : s.Enlarges s') (ht : Keeps (¬ s.Has ·) t t') :
    s.DeepCopy t' owner levels m other := by
  have hfreshCopy {m other : Member} {bound : Nat} (hm : s.Grounded bound m)
      (h : s'.FreshCopy t owner m other) : s.FreshCopy t' owner m other := by
    have hfresh (p : Part) (hp : p ∈ other.own) : ¬ s.Has p := fun hold =>
      (h.fresh p hp).1 (hs.has hold)
    refine ⟨h.toIsCopy, h.made, fun p hp => ⟨hfresh p hp, ht.has (hfresh p hp) (h.fresh p hp).2⟩,
      fun c hc k hk => ?_⟩
    have hkown := Member.mem_own_of_kind (MemberKind.cell_mem_own.mpr hk)
    rw [ht.cell (hfresh _ hkown) (h.fresh _ hkown).2, h.stored c hc k hk,
      hs.cell (hm.has _ (MemberKind.cell_mem_own.mpr hc))]
  induction levels generalizing m other bound with
  | zero => exact ⟨hfreshCopy hm h.1, h.2⟩
  | succ levels ih =>
    refine ⟨hfreshCopy hm h.1, fun l hl k hk => ?_⟩
    obtain ⟨hhidden, hentries⟩ := h.2 l hl k hk
    have hkown := Member.mem_own_of_kind (MemberKind.list_mem_own.mpr hk)
    have hklist : t'.list k = t.list k :=
      ht.list (fun hold => (h.1.fresh _ hkown).1 (hs.has hold)) (h.1.fresh _ hkown).2
    rw [hs.list (hm.has _ (MemberKind.list_mem_own.mpr hl))] at hhidden hentries
    obtain ⟨fewer, hnested⟩ := hm.nested hl
    refine ⟨by rw [hklist, hhidden], ?_⟩
    rw [hklist]
    exact forall₂_imp_mem (fun entry hentry other hcopy =>
      ⟨hcopy.1, ih hcopy.2 (hnested entry.2 (List.mem_map_of_mem hentry))⟩) hentries

/-- What was made for a copy is not touched by what is made later. -/
theorem enlarge (h : s.DeepCopy t owner levels m other) (hm : s.Grounded more m)
    (ht : t.Enlarges u) : s.DeepCopy u owner levels m other :=
  h.transfer hm (Coherent.refl s) (ht.keeps.weaken (by simp))

theorem grounded (h : s.DeepCopy t owner levels m other) : t.Grounded levels other := by
  induction levels generalizing m other with
  | zero =>
    have hlist := MemberKind.list?_of_form h.1.form
    rw [h.2, Option.isSome_none, Option.isSome_eq_false_iff, Option.isNone_iff_eq_none] at hlist
    exact ⟨fun p hp => (h.1.fresh p (Member.mem_own_of_kind hp)).2, hlist⟩
  | succ levels ih =>
    refine ⟨fun p hp => (h.1.fresh p (Member.mem_own_of_kind hp)).2, fun k hk nested hnested => ?_⟩
    have hlist := MemberKind.list?_of_form h.1.form
    rw [hk, Option.isSome_some, eq_comm, Option.isSome_iff_exists] at hlist
    obtain ⟨l, hl⟩ := hlist
    obtain ⟨other, hother, rfl⟩ := List.mem_map.mp hnested
    obtain ⟨entry, -, hcopy⟩ := exists_mem_of_forall₂ (h.2 l hl k hk).entries hother
    exact ih hcopy.2

end DeepCopy

/-- The part is the member's, or that of a member nested in it at some level. -/
inductive Spans (s : Store) : Member → Part → Prop
  | own {m : Member} {p : Part} (hp : p ∈ m.own) : Spans s m p
  | nested {m nested : Member} {l : ListId} {p : Part} (hl : m.kind.list? = some l)
      (hnested : nested ∈ (s.list l).members) (h : Spans s nested p) : Spans s m p

/-- A copy is new at every level. -/
theorem DeepCopy.fresh {p : Part} (h : s.DeepCopy t owner levels m other)
    (hp : t.Spans other p) : ¬ s.Has p ∧ t.Has p := by
  induction hp generalizing m levels with
  | own hp => exact h.freshCopy.fresh _ hp
  | @nested other nested k p hk hnested _ ih =>
    have hlist := MemberKind.list?_of_form h.freshCopy.form
    rw [hk, Option.isSome_some, eq_comm, Option.isSome_iff_exists] at hlist
    obtain ⟨l, hl⟩ := hlist
    obtain ⟨fewer, hcopy⟩ := h.nested hl hk
    obtain ⟨entry', hentry', rfl⟩ := List.mem_map.mp hnested
    obtain ⟨entry, -, -, hdeep⟩ := exists_mem_of_forall₂ hcopy.entries hentry'
    exact ih hdeep

/-! ## What copying makes -/

/-- What is true of each element and its image when the image is made, and stays true then, is true
of all of them in the end. -/
theorem mapM_along {α β : Type} {R : Store → Store → Prop} [Coherent R] {P : Store → Prop}
    {Q : Store → α → β → Prop} {f : α → StateM Store β} {l : List α}
    (hf : ∀ a ∈ l, ∀ s, P s → P (s.after (f a)) ∧ R s (s.after (f a)) ∧
      Q (s.after (f a)) a ((f a).run s).1)
    (hQ : ∀ a ∈ l, ∀ s t b, R s t → Q s a b → Q t a b) {s : Store} (hs : P s) :
    P (s.after (l.mapM f)) ∧ R s (s.after (l.mapM f)) ∧
      List.Forall₂ (Q (s.after (l.mapM f))) l ((l.mapM f).run s).1 := by
  induction l generalizing s with
  | nil => exact ⟨hs, Coherent.refl s, .nil⟩
  | cons a rest ih =>
    obtain ⟨hP, hR, hfirst⟩ := hf a List.mem_cons_self s hs
    obtain ⟨hlast, hrest, hothers⟩ := ih (fun b hb => hf b (List.mem_cons_of_mem a hb))
      (fun b hb => hQ b (List.mem_cons_of_mem a hb)) hP
    rw [List.mapM_cons]
    exact ⟨hlast, Coherent.trans hR hrest,
      .cons (hQ a List.mem_cons_self _ _ _ hrest hfirst) hothers⟩

/-- What a kind has for itself when it is copied: a cell with the same value, a list of copies, or
nothing. -/
theorem copyKind_cases (copy : Member → StateM Store Member) (kind : MemberKind) (s : Store) :
    (∃ c copied, kind.cell? = some c ∧ kind.list? = none ∧
      copied.own = [.cell ⟨s.cells.size⟩] ∧
      (copyKind copy kind).run s = (copied, s.after (addCell (s.cell c)))) ∨
    (∃ l copied, kind.cell? = none ∧ kind.list? = some l ∧
      copied.own = [.list ((copyList copy l).run s).1] ∧
      (copyKind copy kind).run s = (copied, s.after (copyList copy l))) ∨
    kind.cell? = none ∧ kind.list? = none ∧ (copyKind copy kind).run s = (kind, s) := by
  unfold copyKind
  split
  · exact .inl ⟨_, _, rfl, rfl, rfl, rfl⟩
  · exact .inl ⟨_, _, rfl, rfl, rfl, rfl⟩
  · exact .inr (.inl ⟨_, _, rfl, rfl, rfl, rfl⟩)
  next hnote hcaptured hset =>
    refine .inr (.inr ⟨?_, ?_, rfl⟩)
    · cases kind <;> simp_all [MemberKind.cell?]
    · cases kind with
      | memberSet content inherits => cases content <;> simp_all [MemberKind.list?]
      | _ => rfl

theorem run_copyWithin_succ {kind : MemberKind} {depth : Nat}
    (h : (copyKind (copyWithin owner depth) m.kind).run s = (kind, u)) :
    (copyWithin owner (depth + 1) m).run s =
      (⟨.made u.made, m.name, m.flags, owner, kind⟩, u.after nextMemberId) := by
  rw [copyWithin, StateT.run_bind, h]
  rfl

theorem freshCopy_of_kind {kind : MemberKind} (owner : Option ObjectId) (hu : s.Enlarges u)
    (hform : kind.form = m.kind.form) (hown : ∀ p ∈ kind.own, ¬ s.Has p ∧ u.Has p)
    (hstored : ∀ c ∈ m.kind.cell?, ∀ k ∈ kind.cell?, u.cell k = s.cell c) :
    s.FreshCopy (u.after nextMemberId) owner m ⟨.made u.made, m.name, m.flags, owner, kind⟩ where
  toIsCopy := ⟨rfl, rfl, hform, rfl⟩
  made := ⟨u.made, rfl⟩
  fresh p hp := by
    rcases List.mem_append.mp hp with hserial | hkind
    · obtain rfl : p = .serial u.made := by simpa [Member.serial?] using hserial
      have hmade : ¬ s.Has (.serial u.made) := fun hold =>
        Nat.lt_irrefl _ (hu.has hold : u.made < u.made)
      exact ⟨hmade, Nat.lt_succ_self u.made⟩
    · exact ⟨(hown p hkind).1, (enlarges_nextMemberId u).has (hown p hkind).2⟩
  stored := hstored

/-- A member without a list is copied with its cell, if it has one. -/
theorem deepCopy_of_list?_eq_none {depth : Nat} (owner : Option ObjectId)
    (hl : m.kind.list? = none) :
    s.DeepCopy (s.after (copyWithin owner (depth + 1) m)) owner levels m
      ((copyWithin owner (depth + 1) m).run s).1 := by
  have hform := form_copyKind (copyWithin owner depth) m.kind s
  refine .of_list?_eq_none ?_ hl
  rcases copyKind_cases (copyWithin owner depth) m.kind s with
    ⟨c, copied, hc, -, hown, hrun⟩ | ⟨l, copied, -, hsome, -⟩ | ⟨hnone, -, hrun⟩
  · rw [after, run_copyWithin_succ hrun]
    rw [hrun] at hform
    refine freshCopy_of_kind owner (enlarges_addCell _ s) hform (fun p hp => ?_)
      (fun d hd k hk => ?_)
    · obtain rfl : p = .cell ⟨s.cells.size⟩ := by simpa [hown] using hp
      exact ⟨Nat.lt_irrefl _, has_addCell_self s _⟩
    · obtain rfl : c = d := Option.some.inj (hc.symm.trans hd)
      obtain rfl : k = ⟨s.cells.size⟩ := by
        simpa [hown] using MemberKind.cell_mem_own.mpr hk
      exact cell_addCell_self s _
  · exact absurd (hl.symm.trans hsome) (by simp)
  · rw [after, run_copyWithin_succ hrun]
    exact freshCopy_of_kind owner (Coherent.refl s) rfl
      (by simp [MemberKind.own_eq_nil hnone hl]) (by simp [hnone])

theorem run_copyList {copy : Member → StateM Store Member} {l : ListId}
    {entries : NameMap Member} (h : ((s.list l).entries.mapM fun entry => do
      return (entry.1, ← copy entry.2) : StateM Store (NameMap Member)).run s = (entries, u)) :
    (copyList copy l).run s =
      (⟨u.lists.size⟩, u.after (addList ⟨entries, (s.list l).hiddenCount⟩)) := by
  show (Bind.bind ((s.list l).entries.mapM fun entry => do return (entry.1, ← copy entry.2))
    fun entries => addList ⟨entries, (s.list l).hiddenCount⟩).run s = _
  rw [StateT.run_bind, h]
  rfl

section

variable {depth : Nat} (hmake : ∀ {s : Store} {m : Member}, s.Grounded levels m →
  s.DeepCopy (s.after (copyWithin owner depth m)) owner levels m
    ((copyWithin owner depth m).run s).1)
include hmake

theorem deepCopy_entries {entries : NameMap Member}
    (h : ∀ entry ∈ entries, s.Grounded levels entry.2) :
    ∃ copies u, (entries.mapM fun entry => do
        return (entry.1, ← copyWithin owner depth entry.2) : StateM Store (NameMap Member)).run s =
        (copies, u) ∧ s.Enlarges u ∧
      List.Forall₂ (fun entry other => other.1 = entry.1 ∧
        s.DeepCopy u owner levels entry.2 other.2) entries copies := by
  -- What is made for an entry is compared with the store in which the first copy was begun.
  obtain ⟨-, hu, hcopies⟩ := mapM_along (R := Enlarges) (P := s.Enlarges)
    (Q := fun u (entry other : String × Member) => other.1 = entry.1 ∧
      s.DeepCopy u owner levels entry.2 other.2)
    (f := fun entry => do return (entry.1, ← copyWithin owner depth entry.2)) (l := entries)
    (fun entry hentry t ht =>
      have hmade : t.Enlarges (t.after (copyWithin owner depth entry.2)) :=
        enlarges_copyWithin owner depth entry.2 t
      ⟨Coherent.trans ht hmade, hmade, rfl,
        (hmake ((h entry hentry).enlarge ht)).transfer (h entry hentry) ht (.refl _)⟩)
    (fun entry hentry t u other hu hcopy => ⟨hcopy.1, hcopy.2.enlarge (h entry hentry) hu⟩)
    (Coherent.refl s)
  exact ⟨_, _, rfl, hu, hcopies⟩

theorem listCopy_copyList {l : ListId}
    (hnested : ∀ nested ∈ (s.list l).members, s.Grounded levels nested) :
    ∃ k u, (copyList (copyWithin owner depth) l).run s = (k, u) ∧ s.Enlarges u ∧
      ¬ s.Has (.list k) ∧ u.Has (.list k) ∧ s.ListCopy u (s.DeepCopy u owner levels) l k := by
  have hgrounded : ∀ entry ∈ (s.list l).entries, s.Grounded levels entry.2 :=
    fun entry hentry => hnested entry.2 (List.mem_map_of_mem hentry)
  obtain ⟨copies, u, hrun, hu, hcopies⟩ := deepCopy_entries hmake hgrounded
  have hadd := enlarges_addList ⟨copies, (s.list l).hiddenCount⟩ u
  refine ⟨_, _, run_copyList hrun, Coherent.trans hu hadd,
    fun hold => Nat.lt_irrefl _ (hu.has hold), has_addList_self u _, by rw [list_addList_self], ?_⟩
  rw [list_addList_self]
  exact forall₂_imp_mem (fun entry hentry other hcopy =>
    ⟨hcopy.1, hcopy.2.enlarge (hgrounded entry hentry) hadd⟩) hcopies

theorem deepCopy_of_list?_eq_some {l : ListId} (hl : m.kind.list? = some l)
    (hnested : ∀ nested ∈ (s.list l).members, s.Grounded levels nested) :
    s.DeepCopy (s.after (copyWithin owner (depth + 1) m)) owner (levels + 1) m
      ((copyWithin owner (depth + 1) m).run s).1 := by
  have hform := form_copyKind (copyWithin owner depth) m.kind s
  rcases copyKind_cases (copyWithin owner depth) m.kind s with
    ⟨c, copied, -, hnone, -⟩ | ⟨l', copied, hcell, hsome, hown, hrun⟩ | ⟨-, hnone, -⟩
  · exact absurd (hl.symm.trans hnone) (by simp)
  · obtain rfl : l = l' := Option.some.inj (hl.symm.trans hsome)
    obtain ⟨k, u, hcopy, hu, hnew, hthere, hlist⟩ := listCopy_copyList hmake hnested
    rw [hrun] at hform
    rw [hcopy] at hown
    rw [after, hcopy] at hrun
    rw [after, run_copyWithin_succ hrun]
    refine ⟨freshCopy_of_kind owner hu hform (fun p hp => ?_) (by simp [hcell]),
      fun l' hl' k' hk' => ?_⟩
    · obtain rfl : p = .list k := by simpa [hown] using hp
      exact ⟨hnew, hthere⟩
    · obtain rfl : l = l' := Option.some.inj (hl.symm.trans hl')
      obtain rfl : k' = k := by simpa [hown] using MemberKind.list_mem_own.mpr hk'
      exact ⟨hlist.hidden, forall₂_imp_mem (fun entry hentry other hother => ⟨hother.1,
        hother.2.enlarge (hnested entry.2 (List.mem_map_of_mem hentry))
          (enlarges_nextMemberId u)⟩) hlist.entries⟩
  · exact absurd (hl.symm.trans hnone) (by simp)

end

theorem deepCopy_copyWithin (owner : Option ObjectId) (hm : s.Grounded levels m) :
    s.DeepCopy (s.after (copyWithin owner (levels + 1) m)) owner levels m
      ((copyWithin owner (levels + 1) m).run s).1 := by
  induction levels generalizing s m with
  | zero => exact deepCopy_of_list?_eq_none owner hm.2
  | succ levels ih =>
    cases hl : m.kind.list? with
    | none => exact deepCopy_of_list?_eq_none owner hl
    | some l => exact deepCopy_of_list?_eq_some ih hl (hm.2 l hl)

/-- The number of lists is enough for the levels of any member. -/
theorem deepCopy_copyFor (owner : Option ObjectId) (hm : s.Grounded levels m) :
    s.DeepCopy (s.after (copyFor owner m)) owner s.lists.size m ((copyFor owner m).run s).1 := by
  have hrun : (copyFor owner m).run s = (copyWithin owner (s.lists.size + 1) m).run s := rfl
  have hcopy := deepCopy_copyWithin owner hm.bounded
  rw [after] at hcopy ⊢
  rwa [hrun]

end Store

end DynamicMembers
