import DynamicMembers.Proofs.View.Contents

/-! # Copies are independent

Who works through a member writes what is stored in it or nested in it, adds to its member
sets and takes from them (`World.Stroke`). All of that is confined to parts that the member
had, and to new ones. A copy has new parts at every level, so whatever is done through the
copy, all is as it was that the member keeps, and the other way round
(`World.Reachable.copiesApart`).
-/
namespace DynamicMembers

namespace World

/-! ## Working through members -/

/-- One thing that is done through members that have been reached. What is nested in them is
reached in turn, and so is what is added or removed. Values are set of members that store them, as
notes and deserialized properties do: an alias, a variable, code and a script write what they have
not stored. Meanwhile anything may be made. -/
inductive Stroke : World × List Member → World × List Member → Prop
  | reach {w : World} {reached : List Member} {g m : Member} {l : ListId} (hg : g ∈ reached)
      (hl : g.kind.list? = some l) (hm : m ∈ (w.store.list l).members) :
      Stroke (w, reached) ({ w with members := m :: w.members }, m :: reached)
  | setValue {w : World} {reached : List Member} {m : Member} {v : Value} (hm : m ∈ reached)
      (hown : m.kind.own ≠ []) (hv : w.Knows v) (env : Environment) :
      Stroke (w, reached) (w.call (m.setValue env v) fun _ => [], reached)
  | add {w : World} {reached : List Member} {g m : Member} {v : View} (hg : g ∈ reached)
      (hv : View.ofMember? w.store g = some v) (mask : TypeMask) (hm : m ∈ w.members)
      (vouched : Bool) :
      Stroke (w, reached) (w.gain ((v.withMask mask).add m vouched).run returned,
        returned (((v.withMask mask).add m vouched).run.run w.store).1 ++ reached)
  | remove {w : World} {reached : List Member} {g : Member} {v : View} (hg : g ∈ reached)
      (hv : View.ofMember? w.store g = some v) (mask : TypeMask) (name : String) :
      Stroke (w, reached)
        (w.gain ((v.withMask mask).remove name).run fun removed =>
          (returned removed).flatMap (·.toList),
        (returned (((v.withMask mask).remove name).run.run w.store).1).flatMap (·.toList) ++
          reached)
  | meanwhile {w w' : World} {reached : List Member} (h : Deed true w w')
      (ht : w.store.Enlarges w'.store) : Stroke (w, reached) (w', reached)

abbrev Strokes : World × List Member → World × List Member → Prop := Relation.ReflTransGen Stroke

end World

/-! ## What is confined to members -/

namespace Store

/-- What is done is confined to the parts of the members that had been reached, and to new ones. -/
structure Confined (s : Store) (reached : List Member) (t : Store) (reached' : List Member) :
    Prop where
  objects : t.objects = s.objects
  keeps : s.Keeps (fun p => ∀ g ∈ reached, ¬ s.Spans g p) t
  grows : ∀ g ∈ reached', ∀ p, t.Spans g p → (∃ g ∈ reached, s.Spans g p) ∨ ¬ s.Has p

variable {Γ : Ledger} {s t : Store} {h : Holder} {m inner : Member} {reached reached' : List Member}
  {p : Part}

theorem Sound.exists_fits_of_includes (hs : s.Sound Γ) (hm : m.Fits Γ s h)
    (hinner : s.Includes m inner) : ∃ h, inner.Fits Γ s h := by
  induction hinner generalizing h with
  | self => exact ⟨h, hm⟩
  | nested hl hnested _ ih =>
    obtain ⟨_, hfits⟩ := (hs.admits_nested hm hl hnested).exists_fits
    exact ih hfits

/-- Where lists have got nothing but new members, a member has got nothing but new parts. -/
theorem Sound.spans_before (hs : s.Sound Γ) (hm : m.Fits Γ s h)
    (hlists : ∀ l, s.Has (.list l) → ∀ nested ∈ (t.list l).members,
      nested ∈ (s.list l).members ∨ ∀ p, t.Spans nested p → ¬ s.Has p)
    (hp : t.Spans m p) : s.Spans m p ∨ ¬ s.Has p :=
  (hs.spans_cases (R := fun _ nested => ∀ p, t.Spans nested p → ¬ s.Has p) hm hlists hp).imp_right
    fun ⟨_, _, hnew, _, hp⟩ => hnew _ hp

namespace Confined

/-- The members that are reached afterwards had been reached, or are nested in these, or are new. -/
theorem of_writes (hs : s.Sound Γ) (hreached : ∀ g ∈ reached, ∃ h, g.Fits Γ s h)
    (hobjects : t.objects = s.objects)
    (hkeeps : s.Keeps (fun p => ∀ g ∈ reached, ¬ s.Spans g p) t)
    (hlists : ∀ l, s.Has (.list l) → ∀ nested ∈ (t.list l).members,
      nested ∈ (s.list l).members ∨ ∀ p, t.Spans nested p → ¬ s.Has p)
    (hnew : ∀ g ∈ reached', (∃ g' ∈ reached, s.Includes g' g) ∨ ∀ p, t.Spans g p → ¬ s.Has p) :
    s.Confined reached t reached' where
  objects := hobjects
  keeps := hkeeps
  grows g hg p hp := by
    rcases hnew g hg with ⟨g', hg', hincludes⟩ | hnew
    · obtain ⟨_, hg'fits⟩ := hreached g' hg'
      obtain ⟨_, hfits⟩ := hs.exists_fits_of_includes hg'fits hincludes
      exact (hs.spans_before hfits hlists hp).imp_left fun hspans =>
        ⟨g', hg', hincludes.spans hspans⟩
    · exact .inr (hnew p hp)

theorem refl (s : Store) (reached : List Member) : s.Confined reached s reached :=
  ⟨rfl, .refl s, fun g hg _ hp => .inl ⟨g, hg, hp⟩⟩

/-- A member that has no part in common with those that were reached is left alone. -/
theorem sameParts (hc : s.Confined reached t reached') (hs : s.Sound Γ) (hm : m.Fits Γ s h)
    (hapart : ∀ g ∈ reached, s.Apart g m) : s.SameParts t m :=
  .of_keeps hs hm hc.keeps fun p hp g hg hshared => hapart g hg p hshared hp

/-- It has no part in common either with those that are reached then. -/
theorem apart (hc : s.Confined reached t reached') (hs : s.Sound Γ) (hm : m.Fits Γ s h)
    (hapart : ∀ g ∈ reached, s.Apart g m) : ∀ g ∈ reached', t.Apart g m := by
  intro g hg p hp hshared
  have hbefore : s.Spans m p := (hc.sameParts hs hm hapart).spans_iff.mp hshared
  rcases hc.grows g hg p hp with ⟨g', hg', hspans⟩ | hnew
  · exact hapart g' hg' p hspans hbefore
  · exact hnew (hs.has_of_spans hm hbefore)

end Confined

end Store

/-! ## Strokes -/

namespace View

variable {s : Store} {v : View} {m : Member} {name : String}

theorem not_locked_of_removeRefusal? (h : v.removeRefusal? s name = none) :
    v.isReadOnly = false := by
  unfold removeRefusal? at h
  split at h
  · cases h
  · simpa using ‹¬v.isReadOnly = true›

theorem exists_list_of_unlocked (hv : ofMember? s m = some v) {mask : TypeMask}
    (h : (v.withMask mask).isReadOnly = false) :
    ∃ l, m.kind.list? = some l ∧ (v.withMask mask).list? s = some l := by
  cases hl : m.kind.list? with
  | none => exact absurd ((locked_of_list?_eq_none hv hl).1.symm.trans h) (by simp)
  | some l =>
    have hlist : v.list? s = some l := list?_of_ofMember? hv hl
    exact ⟨l, rfl, hlist⟩

end View

namespace Member

variable {m : Member}

/-- A write to a member with parts of its own writes the cell that it has, or nothing. -/
theorem run_setValue_own (env : Environment) (hown : m.kind.own ≠ []) (v : Value) (s : Store) :
    ∃ outcome, (m.setValue env v).run.run s = (outcome, s) ∨
      ∃ c, m.kind.cell? = some c ∧ (m.setValue env v).run.run s = (outcome, s.setCell c v) := by
  have hset : m.setValue env v = m.setValueItself env v := by
    unfold setValue
    split
    next hkind =>
      rw [hkind] at hown
      exact absurd rfl hown
    next => rfl
  rw [hset, setValueItself, Store.run_read_then]
  cases hkind : m.kind with
  | note c =>
    dsimp only
    split
    · exact ⟨_, .inr ⟨c, rfl, rfl⟩⟩
    · exact ⟨_, .inl rfl⟩
  | captured c => exact ⟨_, .inr ⟨c, rfl, rfl⟩⟩
  | memberSet content inherits => exact ⟨_, .inl rfl⟩
  | _ => exact absurd (by rw [hkind]; rfl) hown

end Member

namespace World

open Store (Confined)

variable {Γ : Ledger} {w w' : World} {g m : Member} {v : View} {reached reached' : List Member}
  {state state' : World × List Member}

theorem call_quiet {ε α : Type} (w : World) (x : Run ε α) :
    w.call x (fun _ => []) = w.withStore (w.store.after x.run) := by
  simp [World.call, World.gain, World.withStore]

namespace Sound

theorem exists_fits (hw : w.Sound Γ) (hreached : reached ⊆ w.members) :
    ∀ g ∈ reached, ∃ h, g.Fits Γ w.store h :=
  fun g hg => (hw.members g (hreached hg)).exists_owner.imp' _ fun _ => id

theorem confined_setValue {env : Environment} {v : Value} (hw : w.Sound Γ)
    (hreached : reached ⊆ w.members) (hm : m ∈ reached) (hown : m.kind.own ≠ []) (hv : w.Knows v) :
    (∃ Δ, Continues Γ w Δ (w.call (m.setValue env v) fun _ => [])) ∧
      w.store.Confined reached (w.call (m.setValue env v) fun _ => []).store reached := by
  obtain ⟨outcome, hrun | ⟨c, hc, hrun⟩⟩ := Member.run_setValue_own env hown v w.store
  all_goals
    rw [call_quiet, Store.after, hrun]
  · exact ⟨⟨Γ, .refl hw⟩, .refl _ _⟩
  · obtain ⟨Δ, hΔ⟩ := hw.setCell (.own (hreached hm) hc) hv
    refine ⟨⟨Δ, hΔ⟩, .of_writes hw.store (hw.exists_fits hreached) rfl
      (.setCell (fun k hk hkc => ?_) v) (fun _ _ _ => .inl) fun g hg => .inl ⟨g, hg, .self g⟩⟩
    exact hk m hm (Store.spans_cell (hkc ▸ hc))

theorem confined_add (hw : w.Sound Γ) (hreached : reached ⊆ w.members) (hg : g ∈ reached)
    (hv : View.ofMember? w.store g = some v) (mask : TypeMask) (hm : m ∈ w.members)
    (vouched : Bool) :
    w.store.Confined reached (w.store.after ((v.withMask mask).add m vouched).run)
      (returned (((v.withMask mask).add m vouched).run.run w.store).1 ++ reached) := by
  cases hrefusal : (v.withMask mask).addRefusal? w.store m vouched with
  | some refusal =>
    rw [Store.after, View.add_of_refusal hrefusal]
    exact .refl _ _
  | none =>
    obtain ⟨l, hgl, hl⟩ := View.exists_list_of_unlocked hv (View.not_locked_of_addRefusal? hrefusal)
    have hsees : w.Sees (v.withMask mask) := .member (hreached hg) hv mask
    obtain ⟨hthere, -⟩ := hsees.list hw hl
    obtain ⟨_, hfits⟩ := (hw.members m hm).exists_owner
    obtain ⟨levels, hlevels⟩ := hw.store.grounded hfits.kind
    obtain ⟨copy, u, replaced, members, hadd, hrun, hu, -, -, hdeep⟩ :=
      hsees.run_add (hw.agree Ledger.agrees_awaiting) hm Ledger.awaits_awaiting hrefusal hl
    obtain ⟨announced, ht⟩ := (v.withMask mask).exists_announced copy.name (u.setList l members)
    rw [Store.after, hrun, ht]
    have hcopied := hdeep.transfer hlevels (Store.Coherent.refl _)
      (.setList_announced (fun k hk hkl => hk (hkl ▸ hthere)) members announced)
    have hnew (p : Part) (hp : Store.Spans { u.setList l members with announced := announced }
        copy p) : ¬ w.store.Has p := (hcopied.fresh hp).1
    have hkeeps : w.store.Keeps (fun p => ∀ g ∈ reached, ¬ w.store.Spans g p)
        { u.setList l members with announced := announced } :=
      (hu.keeps.weaken fun _ _ => trivial).trans (.setList_announced
        (fun k hk hkl => hk g hg (Store.spans_list (hkl ▸ hgl))) members announced)
    refine .of_writes hw.store (hw.exists_fits hreached) hu.objects hkeeps
      (fun k hk nested hnested => ?_) (List.forall_mem_cons.mpr ⟨.inr hnew, fun k hk =>
        .inl ⟨k, hk, .self k⟩⟩)
    replace hnested : nested ∈ ((u.setList l members).list k).members := hnested
    by_cases hkl : k = l
    · subst hkl
      rw [Store.list_setList_self members (hu.has hthere)] at hnested
      rcases (MemberList.members_of_add hadd).2 nested hnested with rfl | hold
      · exact .inr hnew
      · exact .inl (hu.list hthere ▸ hold)
    · rw [Store.list_setList_of_ne hkl, hu.list hk] at hnested
      exact .inl hnested

theorem confined_remove (hw : w.Sound Γ) (hreached : reached ⊆ w.members) (hg : g ∈ reached)
    (hv : View.ofMember? w.store g = some v) (mask : TypeMask) (name : String) :
    w.store.Confined reached (w.store.after ((v.withMask mask).remove name).run)
      ((returned (((v.withMask mask).remove name).run.run w.store).1).flatMap (·.toList) ++
        reached) := by
  cases hrefusal : (v.withMask mask).removeRefusal? w.store name with
  | some refusal =>
    rw [Store.after, View.remove_of_refusal hrefusal]
    exact .refl _ _
  | none =>
    obtain ⟨l, hgl, hl⟩ :=
      View.exists_list_of_unlocked hv (View.not_locked_of_removeRefusal? hrefusal)
    rcases (v.withMask mask).run_remove name w.store with ⟨outcome, hrun, hnone⟩ |
      ⟨l', removed, members, hl', hremove, hrun⟩
    · rw [Store.after, hrun]
      cases outcome with
      | error refusal => exact .refl _ _
      | ok removed =>
        rw [hnone removed rfl]
        exact .refl _ _
    · obtain rfl : l = l' := Option.some.inj (hl.symm.trans hl')
      obtain ⟨hsubset, hremoved⟩ := MemberList.members_of_remove hremove
      obtain ⟨hthere, -⟩ := World.Sees.list hw (.member (hreached hg) hv mask) hl
      rw [Store.after, hrun]
      refine .of_writes hw.store (hw.exists_fits hreached) rfl
        (.setList (fun k hk hkl => hk g hg (Store.spans_list (hkl ▸ hgl))) members)
        (fun k hk nested hnested => .inl ?_) fun k hk => .inl ?_
      · by_cases hkl : k = l
        · subst hkl
          rw [Store.list_setList_self members hthere] at hnested
          exact hsubset hnested
        · rwa [Store.list_setList_of_ne hkl] at hnested
      · rcases List.mem_append.mp hk with hk | hk
        · have hin : k ∈ (w.store.list l).members := hremoved k (by simpa [returned] using hk)
          exact ⟨g, hg, .nested hgl hin (.self k)⟩
        · exact ⟨k, hk, .self k⟩

end Sound

/-- Whatever is done through members is confined to them. -/
theorem Stroke.confined (h : Stroke state state') (hw : state.1.Sound Γ)
    (hΓ : Γ.Tolerates true) (hreached : state.2 ⊆ state.1.members) :
    (∃ Δ, Continues Γ state.1 Δ state'.1) ∧ state'.2 ⊆ state'.1.members ∧
      state.1.members ⊆ state'.1.members ∧
      state.1.store.Confined state.2 state'.1.store state'.2 := by
  cases h with
  | @reach w reached g m l hg hl hm =>
    obtain ⟨_, hfits⟩ := (hw.members g (hreached hg)).exists_owner
    have hgenuine := (hw.store.admits_nested hfits hl hm).genuine nofun
    refine ⟨Sound.staying (Store.Coherent.refl _) rfl rfl
      (hw.hold (List.forall_mem_singleton.mpr hgenuine)), List.cons_subset_cons m hreached,
      List.subset_cons_self _ _, ?_⟩
    refine .of_writes hw.store (hw.exists_fits hreached) rfl (.refl _) (fun _ _ _ => .inl)
      (List.forall_mem_cons.mpr ⟨.inl ⟨g, hg, .nested hl hm (.self m)⟩, fun k hk =>
        .inl ⟨k, hk, .self k⟩⟩)
  | setValue hm hown hv env =>
    obtain ⟨hsound, hconfined⟩ := hw.confined_setValue hreached hm hown hv
    exact ⟨hsound, List.subset_append_of_subset_right _ hreached, List.subset_append_right _ _,
      hconfined⟩
  | add hg hv mask hm vouched =>
    have hsound := hw.add (.member (hreached hg) hv mask) hm vouched
      fun _ hshares copy _ _ => hΓ.strays hshares copy
    exact ⟨hsound, List.append_subset.mpr ⟨List.subset_append_left _ _,
      List.subset_append_of_subset_right _ hreached⟩, List.subset_append_right _ _,
      hw.confined_add hreached hg hv mask hm vouched⟩
  | remove hg hv mask name =>
    have hsound := hw.remove (.member (hreached hg) hv mask) name
    exact ⟨hsound, List.append_subset.mpr ⟨List.subset_append_left _ _,
      List.subset_append_of_subset_right _ hreached⟩, List.subset_append_right _ _,
      hw.confined_remove hreached hg hv mask name⟩
  | meanwhile hdeed ht =>
    refine ⟨hw.deed hdeed (hΓ.allows _ _), List.Subset.trans hreached hdeed.members_subset,
      hdeed.members_subset, .of_writes hw.store (hw.exists_fits hreached) ht.objects
        (ht.keeps.weaken fun _ _ => trivial) (fun l hl nested hnested => .inl ?_)
        fun g hg => .inl ⟨g, hg, .self g⟩⟩
    rwa [← ht.list hl]

/-- A member is clear of what is done through those that were reached. -/
structure Clear (Γ : Ledger) (m : Member) (state : World × List Member) : Prop where
  sound : state.1.Sound Γ
  tolerates : Γ.Tolerates true
  reached : state.2 ⊆ state.1.members
  held : m ∈ state.1.members
  apart : ∀ g ∈ state.2, state.1.store.Apart g m

theorem Clear.stroke (hm : Clear Γ m state) (h : Stroke state state') :
    ∃ Δ, Clear Δ m state' ∧ state.1.store.SameParts state'.1.store m ∧
      state'.1.store.objects = state.1.store.objects := by
  obtain ⟨⟨Δ, hΔ⟩, hreached, hmembers, hconfined⟩ :=
    h.confined hm.sound hm.tolerates hm.reached
  obtain ⟨_, hfits⟩ := (hm.sound.members m hm.held).exists_owner
  exact ⟨Δ, ⟨hΔ.sound, hm.tolerates.agree hΔ.agrees, hreached, hmembers hm.held,
    hconfined.apart hm.sound.store hfits hm.apart⟩,
    hconfined.sameParts hm.sound.store hfits hm.apart, hconfined.objects⟩

theorem Clear.strokes (hm : Clear Γ m state) (h : Strokes state state') :
    ∃ Δ, Clear Δ m state' ∧ state.1.store.SameParts state'.1.store m ∧
      state'.1.store.objects = state.1.store.objects := by
  induction h with
  | refl => exact ⟨Γ, hm, .refl _ m, rfl⟩
  | tail _ hlast ih =>
    obtain ⟨Δ, hΔ, hparts, hobjects⟩ := ih
    obtain ⟨Θ, hΘ, hlastParts, hlastObjects⟩ := hΔ.stroke hlast
    exact ⟨Θ, hΘ, hparts.trans hlastParts, hlastObjects.trans hobjects⟩

/-! ## Copies -/

/-- The member is copied, for the owner it has or for another one, or with other flags. -/
inductive Duplicates (w : World) (m : Member) :
    StateM Store Member → Option ObjectId → (MemberFlags → MemberFlags) → Prop
  | copy : Duplicates w m (Store.copy m) m.owner id
  | withOwner {owner : Option ObjectId} (ho : ∀ o ∈ owner, o.index < w.store.objects.size) :
      Duplicates w m (Store.copyFor owner m) owner id
  | withFlag (flag : MemberFlag) (on : Bool) :
      Duplicates w m (Store.copyWithFlag m flag on) m.owner (·.set flag on)

/-- The copy is like the member at every level, and neither can be told from the other by what is
done to it or to what is nested in it. -/
structure CopiesApart (w : World) (m : Member) (x : StateM Store Member)
    (owner : Option ObjectId) (change : MemberFlags → MemberFlags) : Prop where
  contents : ∀ depth, (w.store.after x).contents depth (x.run w.store).1 =
    w.store.contents depth { m with flags := change m.flags }
  owner : (x.run w.store).1.owner = owner
  /-- The copy is made without any change of the member. -/
  left : m.ReadsAlike w.store (w.store.after x)
  byCopy : ∀ w' reached, Strokes (w.gain x ([·]), [(x.run w.store).1]) (w', reached) →
    m.ReadsAlike w.store w'.store
  byMember : ∀ w' reached, Strokes (w.gain x ([·]), [m]) (w', reached) →
    (x.run w.store).1.ReadsAlike (w.store.after x) w'.store

variable {x : StateM Store Member} {owner : Option ObjectId} {change : MemberFlags → MemberFlags}

theorem Duplicates.owner_lt (hx : w.Duplicates m x owner change) (hw : w.Sound Γ)
    (hm : m ∈ w.members) : ∀ o ∈ owner, o.index < w.store.objects.size := by
  cases hx with
  | withOwner ho => exact ho
  | copy | withFlag => exact (hw.members m hm).owner

theorem Duplicates.run_eq (hx : w.Duplicates m x owner change) {copy : Member} {t : Store}
    (hrun : (Store.copyFor owner m).run w.store = (copy, t)) :
    x.run w.store = ({ copy with flags := change copy.flags }, t) := by
  cases hx with
  | copy | withOwner => exact hrun
  | withFlag flag on =>
    have hcopy : (Store.copyWithFlag m flag on).run w.store =
        (((Store.copyFor m.owner m).run w.store).1.setFlag flag on,
          ((Store.copyFor m.owner m).run w.store).2) := rfl
    rw [hcopy, hrun]
    rfl

/-- In every state, copies are independent of what they are copies of. -/
theorem Reachable.copiesApart (hw : w.Reachable) (hm : m ∈ w.members)
    (hx : w.Duplicates m x owner change) : w.CopiesApart m x owner change := by
  obtain ⟨Γ, hsound, hΓ⟩ := hw.sound
  have ho := hx.owner_lt hsound hm
  have hagrees := Ledger.agrees_awaiting (Γ := Γ) (s := w.store) (h := .owned owner)
  replace hsound := hsound.agree hagrees
  replace hΓ := hΓ.agree hagrees
  obtain ⟨_, hfits⟩ := (hsound.members m hm).exists_owner
  obtain ⟨copy, t, hrun, ht, hs, hcopy, hdeep⟩ :=
    hsound.store.copyFor Ledger.awaits_awaiting ho hfits.kind
  replace hx := hx.run_eq hrun
  let flagged : Member := { copy with flags := change copy.flags }
  have hfirst : (x.run w.store).1 = flagged := congrArg Prod.fst hx
  obtain rfl : w.store.after x = t := congrArg Prod.snd hx
  have hflagged : flagged.Genuine (Γ.awaiting w.store (.owned owner)) (w.store.after x) :=
    hcopy.of_same rfl rfl rfl
  have hgain : (w.gain x ([·])).Sound (Γ.awaiting w.store (.owned owner)) :=
    hsound.gain (.of_enlarges ht) hs (by rw [hfirst]; exact List.forall_mem_singleton.mpr hflagged)
  have hheld : flagged ∈ (w.gain x ([·])).members := by
    rw [gain, hfirst]
    exact List.mem_cons_self
  have hleft : w.store.SameParts (w.store.after x) m :=
    .of_keeps hsound.store hfits ht.keeps fun _ _ => trivial
  -- The copy has new parts only, and the member none of them.
  have hnew : (w.store.after x).Apart flagged m := fun p hp hshared =>
    (hdeep.fresh (Store.spans_of_kind (m := flagged) rfl rfl hp)).1
      (hsound.store.has_of_spans hfits (hleft.spans_iff.mp hshared))
  refine ⟨fun depth => ?_, ?_, hleft.readsAlike ht.objects, fun w' reached h => ?_,
    fun w' reached h => ?_⟩
  · rw [hfirst, ← hdeep.freshCopy.flags]
    exact Store.contents_flags_congr (hdeep.contents_eq depth) _
  · rw [hfirst]
    exact hdeep.freshCopy.owner
  · rw [hfirst] at h
    have hclear : Clear (Γ.awaiting w.store (.owned owner)) m (w.gain x ([·]), [flagged]) :=
      ⟨hgain, hΓ, List.cons_subset.mpr ⟨hheld, List.nil_subset _⟩, List.mem_append_right _ hm,
        List.forall_mem_singleton.mpr hnew⟩
    obtain ⟨-, -, hparts, hobjects⟩ := hclear.strokes h
    exact (hleft.trans hparts).readsAlike (hobjects.trans ht.objects)
  · rw [hfirst]
    have hclear : Clear (Γ.awaiting w.store (.owned owner)) flagged (w.gain x ([·]), [m]) :=
      ⟨hgain, hΓ, List.cons_subset.mpr ⟨List.mem_append_right _ hm, List.nil_subset _⟩, hheld,
        List.forall_mem_singleton.mpr fun p hp hshared => hnew p hshared hp⟩
    obtain ⟨-, -, hparts, hobjects⟩ := hclear.strokes h
    exact hparts.readsAlike hobjects

def groupCopy : Member := ⟨.made 3, "Group", .initial, none, .memberSet (.list ⟨1⟩) false⟩

def sizeCopy : Member := ⟨.made 2, "Size", .initial, none, .note ⟨1⟩⟩

def groupCopied : World := grouped.gain (Store.copy looseGroup) ([·])

def sizeReached : World := { groupCopied with members := sizeCopy :: groupCopied.members }

/-- A copy of a member set is made, and the note in it is written. The note in the member set is as
it was. -/
theorem Reachable.copiesApart_grouped :
    (grouped.Reachable ∧ looseGroup ∈ grouped.members ∧
      grouped.Duplicates looseGroup (Store.copy looseGroup) none id) ∧
    grouped.CopiesApart looseGroup (Store.copy looseGroup) none id ∧
    ∃ w', Strokes (groupCopied, [groupCopy]) (w', [sizeCopy, groupCopy]) ∧
      w'.store.cell ⟨1⟩ = .int 5 ∧ w'.store.cell ⟨0⟩ = .int 1 := by
  have hreachable : grouped.Reachable :=
    ⟨#[], by simp, acts_of_changes (changes_of_deeds (deeds_sized.trans deeds_grouped))⟩
  have hheld : looseGroup ∈ grouped.members := by decide +kernel
  have hcopy : grouped.Duplicates looseGroup (Store.copy looseGroup) none id := .copy
  have hnested : sizeCopy ∈ (groupCopied.store.list ⟨1⟩).members := by decide +kernel
  have hown : sizeCopy.kind.own ≠ [] := List.cons_ne_nil (Part.cell ⟨1⟩) []
  have hreach : Stroke (groupCopied, [groupCopy]) (sizeReached, [sizeCopy, groupCopy]) :=
    .reach List.mem_cons_self rfl hnested
  have hwrite : Stroke (sizeReached, [sizeCopy, groupCopy])
      (sizeReached.call (sizeCopy.setValue (CommandHost.bare.environment 0) (.int 5)) fun _ => [],
        [sizeCopy, groupCopy]) :=
    .setValue List.mem_cons_self hown (by simp [Knows, Value.members]) _
  have hrun : (sizeCopy.setValue (CommandHost.bare.environment 0) (.int 5)).run.run
      sizeReached.store = (.ok (), sizeReached.store.setCell ⟨1⟩ (.int 5)) :=
    Member.run_setValue_note rfl (.int 5)
  refine ⟨⟨hreachable, hheld, hcopy⟩, hreachable.copiesApart hheld hcopy, _,
    .tail (.single hreach) hwrite, ?_⟩
  rw [call_quiet, Store.after, hrun]
  exact ⟨rfl, rfl⟩

/-! ## Member sets that inherit -/

/-- What is read under a name through a member set is not changed by a write to what is found under
it through the other. -/
def ReadsApart (env : Environment) (s : Store) (m other : Member) : Prop :=
  ∀ v v' name found written value read u,
    View.ofMember? s m = some v → View.ofMember? s other = some v' →
    (v.get? env.adapter name).run s = (some found, s) →
    (found.value env).run.run s = (.ok read, s) →
    (v'.get? env.adapter name).run s = (some written, s) →
    (written.setValue env value).run.run s = (.ok (), u) →
    ∃ again, (v.get? env.adapter name).run u = (some again, u) ∧
      (again.value env).run.run u = (.ok read, u)

/-- A member set of an object, that shows the members of the object as well, and its copy. -/
def openGroup : Member := ⟨.made 3, "Group", .initial, some ⟨0⟩, .memberSet (.list ⟨2⟩) true⟩

def openCopy : Member := ⟨.made 4, "Group", .initial, some ⟨0⟩, .memberSet (.list ⟨3⟩) true⟩

def ownSize : Member := ⟨.made 1, "Size", .initial, some ⟨0⟩, .note ⟨2⟩⟩

def looseOpenGroup : Member := ⟨.made 2, "Group", .initial, none, .memberSet (.list ⟨1⟩) true⟩

def objectMade : World := sized.withStore (sized.store.after (Store.wrapAs .null []))

def noteAdded : World :=
  objectMade.gain ((View.ofObject ⟨0⟩).withMask .all |>.add looseSize false).run returned

/-- A member set has been made that has nothing in it and inherits. -/
def openGrouped : World :=
  let w := { noteAdded with
    store := noteAdded.store.after (Store.addList .empty)
    kinds := .memberSet (.list ⟨noteAdded.store.lists.size⟩) true :: noteAdded.kinds }
  w.gain (Member.define "Group" (.memberSet (.list ⟨1⟩) true)).run returned

def groupAdded : World :=
  openGrouped.gain ((View.ofObject ⟨0⟩).withMask .all |>.add looseOpenGroup false).run returned

theorem reachable_groupAdded : groupAdded.Reachable := by
  have hobject : Deed true sized objectMade := .wrap (by simp [Knows, Value.members]) []
  have hthere : (⟨0⟩ : ObjectId).index < objectMade.store.objects.size := by decide +kernel
  have hsize : looseSize ∈ objectMade.members := by decide +kernel
  have hnote : Deed true objectMade noteAdded := .add (.object hthere .all) hsize false
  have hnone : ∀ m ∈ ([] : List Member), m ∈ noteAdded.members := by simp
  have hgrouped : Deeds true noteAdded openGrouped :=
    .tail (.single (.group hnone rfl true))
      (.define "Group" (.made (by decide +kernel) (by decide +kernel) (by decide +kernel)))
  have hthere' : (⟨0⟩ : ObjectId).index < openGrouped.store.objects.size := by decide +kernel
  have hgroup : looseOpenGroup ∈ openGrouped.members := by decide +kernel
  have hadded : Deed true openGrouped groupAdded := .add (.object hthere' .all) hgroup false
  exact ⟨#[], by simp, acts_of_changes <| changes_of_deeds <|
    ((((deeds_sized.tail hobject).tail hnote).trans hgrouped).tail hadded)⟩

/-- Both a member set that inherits and its copy show the note of the object. -/
theorem not_readsApart_of_inherits :
    groupAdded.Reachable ∧ openGroup ∈ groupAdded.members ∧
    groupAdded.Duplicates openGroup (Store.copy openGroup) (some ⟨0⟩) id ∧
    ((Store.copy openGroup).run groupAdded.store).1 = openCopy ∧
    ¬ ReadsApart (CommandHost.bare.environment 0)
      (groupAdded.store.after (Store.copy openGroup)) openGroup openCopy := by
  have hheld : openGroup ∈ groupAdded.members := by decide +kernel
  have hcopy : ((Store.copy openGroup).run groupAdded.store).1 = openCopy := by decide +kernel
  refine ⟨reachable_groupAdded, hheld, .copy, hcopy, fun h => ?_⟩
  let s := groupAdded.store.after (Store.copy openGroup)
  let v : View := ⟨.set "Group" ⟨2⟩ (some ⟨0⟩) true false, .all⟩
  let v' : View := ⟨.set "Group" ⟨3⟩ (some ⟨0⟩) true false, .all⟩
  have hview : View.ofMember? s openGroup = some v := by decide +kernel
  have hview' : View.ofMember? s openCopy = some v' := by decide +kernel
  have hfind : v.find? .bag s "Size" = some ⟨ownSize, .stored⟩ := by decide +kernel
  have hfind' : v'.find? .bag s "Size" = some ⟨ownSize, .stored⟩ := by decide +kernel
  have hagain : v.find? .bag (s.setCell ⟨2⟩ (.int 5)) "Size" = some ⟨ownSize, .stored⟩ := by
    decide +kernel
  have hcell : s.cell ⟨2⟩ = .int 1 := rfl
  have hread : (ownSize.value (CommandHost.bare.environment 0)).run.run s = (.ok (.int 1), s) := by
    rw [Member.run_value_note rfl, hcell]
  obtain ⟨again, hget, hvalue⟩ := h v v' "Size" ownSize ownSize (.int 5) (.int 1) _ hview hview'
    (View.run_get?_of_find? hfind rfl) hread
    (View.run_get?_of_find? hfind' rfl) (Member.run_setValue_note rfl (.int 5))
  have hsame := hget.symm.trans (View.run_get?_of_find? hagain rfl)
  obtain rfl : again = ownSize := Option.some.inj (Prod.mk.inj hsame).1
  have hwritten : (s.setCell ⟨2⟩ (.int 5)).cell ⟨2⟩ = .int 5 := rfl
  rw [Member.run_value_note rfl, hwritten] at hvalue
  cases hvalue

end World

end DynamicMembers
