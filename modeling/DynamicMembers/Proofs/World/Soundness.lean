import DynamicMembers.Proofs.World.Views

/-! # Deeds respect a ledger

Whatever is done with what is held, there is a ledger that store and holdings respect
afterwards, and it says the same as before of all parts that were there
(`World.Sound.deed`). The parts that the declarations have are left alone by all of it:
none of them is in the hands of anyone who could write to it. The declarations themselves
and the texts of scripts are retained, too (`World.Deed.retains`).

A ledger has to allow for what a deed may bring about: that members are made of what others
have, and that what is added through a view without an owner strays (`Ledger.Allows`).
-/
namespace DynamicMembers

section

variable {β : Type}

@[simp] theorem Blocks.template_checkOut (blocks : Blocks β) (template : β) (onCopy : Bool) :
    (blocks.checkOut template onCopy).2.2.template = blocks.template := by
  unfold checkOut
  split <;> rfl

@[simp] theorem Blocks.template_checkIn (blocks : Blocks β) (block : β) :
    (blocks.checkIn block).template = blocks.template := by
  unfold checkIn
  split <;> rfl

end

theorem Store.Sound.pristine {Γ : Ledger} {s : Store} {env : Environment} {i : ScriptId}
    {asked : List (Blocks.Event Block (Except ScriptError Value))} {template : Block}
    {blocks : Blocks Block} (hs : s.Sound Γ)
    (h : ScriptId.Prepares env (s.script i) asked template blocks) :
    template = ⟨(s.script i).text, 0⟩ ∧ blocks.template = some template := by
  cases h with
  | found h => exact ⟨hs.scripts i template h, h⟩
  | compiled => exact ⟨rfl, rfl⟩

namespace World

/-- The member has come of an addition through a view that has no owner. -/
def AddsAside (w : World) (copy : Member) (t : Store) : Prop :=
  ∃ v m vouched, w.Sees v ∧ v.owner? = none ∧ m ∈ w.members ∧
    (v.add m vouched).run.run w.store = (.ok copy, t)

end World

namespace Ledger

/-- The ledger says what such a step may bring about. -/
structure Allows (Γ : Ledger) (sharing : Bool) (w w' : World) : Prop where
  shares : sharing = true → Γ.shares
  strays : Γ.shares → ∀ m, w.AddsAside m w'.store → Γ.strays m

/-- The ledger says what any step may bring about. -/
structure Tolerates (Γ : Ledger) (sharing : Bool) : Prop where
  shares : sharing = true → Γ.shares
  strays : Γ.shares → ∀ m, Γ.strays m

variable {Γ Δ : Ledger} {sharing : Bool}

theorem Tolerates.allows (h : Γ.Tolerates sharing) (w w' : World) : Γ.Allows sharing w w' :=
  ⟨h.shares, fun hshares m _ => h.strays hshares m⟩

theorem Tolerates.agree {s : Store} (h : Γ.Tolerates sharing) (hΔ : Γ.Agrees Δ s) :
    Δ.Tolerates sharing := by
  refine ⟨fun hsharing => ?_, fun hshares => ?_⟩
  · rw [hΔ.shares]
    exact h.shares hsharing
  · rw [hΔ.strays]
    exact h.strays (hΔ.shares ▸ hshares)

end Ledger

namespace World

/-- One world comes after another, and one ledger after the other. What the declarations have is
as it was. -/
structure Continues (Γ : Ledger) (w : World) (Δ : Ledger) (w' : World) : Prop where
  agrees : Γ.Agrees Δ w.store
  onward : w.store.Onward w'.store
  keeps : Store.Keeps (Γ · = .template) w.store w'.store
  sound : w'.Sound Δ

variable {Γ Δ Θ : Ledger} {w w' : World}

theorem Continues.trans {w'' : World} (h : Continues Γ w Δ w') (hrest : Continues Δ w' Θ w'') :
    Continues Γ w Θ w'' where
  agrees := h.agrees.trans hrest.agrees h.onward
  onward := Store.Coherent.trans h.onward hrest.onward
  keeps := h.keeps.trans_of hrest.keeps fun p hp hthere => (h.agrees.holder p hthere).trans hp
  sound := hrest.sound

theorem Continues.refl (hw : w.Sound Γ) : Continues Γ w Γ w :=
  ⟨.refl Γ _, Store.Coherent.refl _, .refl _, hw⟩

/-- What respects a ledger step by step respects one all along. -/
theorem Sound.along {sharing : Bool} {R : World → World → Prop}
    (hR : ∀ {Γ : Ledger} {w w' : World}, w.Sound Γ → Γ.Tolerates sharing → R w w' →
      ∃ Δ, Continues Γ w Δ w')
    (hw : w.Sound Γ) (hΓ : Γ.Tolerates sharing) (h : Relation.ReflTransGen R w w') :
    ∃ Δ, Continues Γ w Δ w' := by
  induction h with
  | refl => exact ⟨Γ, .refl hw⟩
  | tail _ hlast ih =>
    obtain ⟨Δ, hΔ⟩ := ih
    obtain ⟨Θ, hΘ⟩ := hR hΔ.sound (hΓ.agree hΔ.agrees) hlast
    exact ⟨Θ, hΔ.trans hΘ⟩

namespace Sound

/-- The ledger in which new parts are the holder's will do. -/
theorem making {h : Holder} (hw : w.Sound Γ) (ht : w.store.Enlarges w'.store)
    (hsound : ∀ Δ, Γ.Agrees Δ w.store → w.Sound Δ → Δ.Awaits w.store h → w'.Sound Δ) :
    ∃ Δ, Continues Γ w Δ w' :=
  ⟨Γ.awaiting w.store h, Ledger.agrees_awaiting, .of_enlarges ht,
    ht.keeps.weaken fun _ _ => trivial,
    hsound _ Ledger.agrees_awaiting (hw.agree Ledger.agrees_awaiting) Ledger.awaits_awaiting⟩

theorem staying (ht : w.store.Onward w'.store) (hcells : w'.store.cells = w.store.cells)
    (hlists : w'.store.lists = w.store.lists) (hsound : w'.Sound Γ) :
    ∃ Δ, Continues Γ w Δ w' := by
  refine ⟨Γ, .refl Γ _, ht, ⟨fun _ => ht.has, fun _ _ => ?_, fun _ _ => ?_⟩, hsound⟩
  · rw [Store.cell, Store.cell, hcells]
  · rw [Store.list, Store.list, hlists]

theorem keep {v : Value} (hw : w.Sound Γ) (hv : w.Knows v) : ∃ Δ, Continues Γ w Δ { w with
    store := w.store.after (Store.addCell v)
    kinds := .note ⟨w.store.cells.size⟩ :: .captured ⟨w.store.cells.size⟩ :: w.kinds } := by
  have ht := Store.enlarges_addCell v w.store
  refine hw.making (h := .owned none) ht fun Δ _ hw hΔ => ?_
  have hsound := hw.withStore (.of_enlarges ht) (hw.store.addCell (hw.vouches hv))
  have hcell : (w.store.after (Store.addCell v)).Has (.cell ⟨w.store.cells.size⟩) ∧
      Δ (.cell ⟨w.store.cells.size⟩) = .owned none :=
    ⟨Store.has_addCell_self w.store v, hΔ _ (Nat.lt_irrefl w.store.cells.size)⟩
  have hkind {kind : MemberKind} (hown : kind.own = [.cell ⟨w.store.cells.size⟩])
      (hshared : kind.sharedCell? = none) (hscripts : kind.scripts = []) :
      kind.Fits Δ (w.store.after (Store.addCell v)) (.owned none) :=
    ⟨by simpa [hown] using hcell, by simp [hshared], by simp [hscripts]⟩
  exact { hsound with
    kinds := List.forall_mem_cons.mpr ⟨hkind rfl rfl rfl,
      List.forall_mem_cons.mpr ⟨hkind rfl rfl rfl, hsound.kinds⟩⟩ }

theorem share {v : Value} (hw : w.Sound Γ) (hv : w.Knows v) : ∃ Δ, Continues Γ w Δ { w with
    store := w.store.after (Store.addCell v)
    cells := ⟨w.store.cells.size⟩ :: w.cells } := by
  have ht := Store.enlarges_addCell v w.store
  refine hw.making (h := .shared) ht fun Δ _ hw hΔ => ?_
  have hsound := hw.withStore (.of_enlarges ht) (hw.store.addCell (hw.vouches hv))
  exact { hsound with
    cells := List.forall_mem_cons.mpr ⟨⟨Store.has_addCell_self w.store v,
      hΔ _ (Nat.lt_irrefl w.store.cells.size)⟩, hsound.cells⟩ }

theorem write {script : Script} (hw : w.Sound Γ)
    (h : ∀ block, script.blocks.template = some block → block = ⟨script.text, 0⟩) :
    ∃ Δ, Continues Γ w Δ { w with
      store := { w.store with scripts := w.store.scripts.push script }
      scripts := ⟨w.store.scripts.size⟩ :: w.scripts } := by
  have hhas {p : Part} (hp : w.store.Has p) :
      ({ w.store with scripts := w.store.scripts.push script } : Store).Has p := by
    cases p with
    | script i => exact Nat.lt_of_lt_of_eq (Nat.lt_succ_of_lt hp) (Array.size_push _).symm
    | _ => exact hp
  have ht : w.store.Onward { w.store with scripts := w.store.scripts.push script } :=
    .of_same hhas rfl
  refine ⟨Γ.awaiting w.store .shared, Ledger.agrees_awaiting, ht,
    ⟨fun _ => hhas, fun _ _ => rfl, fun _ _ => rfl⟩, ?_⟩
  replace hw := hw.agree (Ledger.agrees_awaiting (h := .shared))
  have hsound := hw.withStore ht (hw.store.addScript h)
  have hnew : (Γ.awaiting w.store .shared) (.script ⟨w.store.scripts.size⟩) = .shared :=
    Ledger.awaits_awaiting _ (Nat.lt_irrefl w.store.scripts.size)
  exact { hsound with
    scripts := List.forall_mem_cons.mpr ⟨⟨Nat.lt_of_lt_of_eq (Nat.lt_succ_self _)
      (Array.size_push _).symm, by rw [hnew]; nofun⟩, hsound.scripts⟩ }

theorem group {members : List Member} {l : MemberList} (hw : w.Sound Γ)
    (hm : ∀ m ∈ members, m ∈ w.members) (h : MemberList.ofMembers members = .ok l)
    (inherits : Bool) : ∃ Δ, Continues Γ w Δ { w with
      store := w.store.after (Store.addList l)
      kinds := .memberSet (.list ⟨w.store.lists.size⟩) inherits :: w.kinds } := by
  have ht := Store.enlarges_addList l w.store
  refine hw.making (h := .owned none) ht fun Δ _ hw hΔ => ?_
  have hlist : Δ (.list ⟨w.store.lists.size⟩) = .owned none :=
    hΔ _ (Nat.lt_irrefl w.store.lists.size)
  have hstore : (w.store.after (Store.addList l)).Sound Δ := by
    refine hw.store.addList fun m hml => ?_
    rw [hlist]
    exact ⟨hw.members m (hm m (MemberList.mem_of_ofMembers h m hml)), nofun⟩
  have hsound := hw.withStore (.of_enlarges ht) hstore
  exact { hsound with
    kinds := List.forall_mem_cons.mpr ⟨⟨by
      simpa [MemberKind.own, MemberKind.cell?, MemberKind.list?] using
        ⟨Store.has_addList_self w.store l, hlist⟩, nofun, nofun⟩, hsound.kinds⟩ }

theorem borrows_of_lends {kind : MemberKind} {c : CellId} (hw : w.Sound Γ) (h : w.Lends kind c) :
    w.store.Has (.cell c) ∧ kind.Borrows (Γ (.cell c)) := by
  cases h with
  | member hm hc hslot =>
    obtain ⟨_, hkind⟩ := (hw.members _ hm).exists_kind
    obtain ⟨hthere, hborrows⟩ := hkind.shared c hc
    exact ⟨hthere, hborrows.of_slot hslot.symm⟩
  | object ho hbase hslot =>
    obtain ⟨⟨hthere, hholder⟩, -⟩ := hw.store.objects _ _ ho
    subst hbase
    rw [hholder]
    exact ⟨hthere, hslot⟩

/-- What a member can be made of is no one's yet, or it is shared. -/
theorem fits_of_offers {sharing : Bool} {kind : MemberKind} (hw : w.Sound Γ)
    (hΓ : sharing = true → Γ.shares) (hk : w.Offers sharing kind) :
    kind.Fits Γ w.store (.owned none) ∨ ∃ o, Γ.shares ∧ kind.Fits Γ w.store (.owned (some o)) ∧
      o.index < w.store.objects.size := by
  have hfits {owner : Option ObjectId}
      (hown : ∀ p ∈ kind.own, w.store.Has p ∧ Γ p = .owned owner) :
      kind.Fits Γ w.store (.owned owner) := by
    refine ⟨hown, fun c hc => ?_, fun script hscript => ?_⟩
    · rcases hk.shared c hc with hheld | ⟨-, hlent⟩
      · obtain ⟨hthere, hshared⟩ := hw.cells c hheld
        rw [hshared]
        exact ⟨hthere, trivial⟩
      · exact hw.borrows_of_lends hlent
    · rcases hk.scripts script hscript with hheld | ⟨hsharing, m, hm, hlent⟩
      · obtain ⟨hthere, hfree⟩ := hw.scripts script.1 hheld
        exact ⟨hthere, fun htemplate => absurd htemplate hfree, nofun⟩
      · obtain ⟨lent, hlent, hsame⟩ := List.mem_map.mp hlent
        obtain ⟨_, hkind⟩ := (hw.members m hm).exists_kind
        exact ⟨hsame ▸ (hkind.scripts lent hlent).1, fun _ => .inr (hΓ hsharing), nofun⟩
  by_cases hnone : kind.own = []
  · exact .inl (hfits (by simp [hnone]))
  rcases hk.own hnone with hheld | ⟨hsharing, m, hm, hsame⟩
  · exact .inl (hfits (hw.kinds kind hheld).own)
  cases hw.members m hm with
  | own hmember =>
    cases howner : m.owner with
    | none => exact .inl (hfits (hsame ▸ howner ▸ hmember.kind.own))
    | some o =>
      exact .inr ⟨o, hΓ hsharing, hfits (hsame ▸ howner ▸ hmember.kind.own),
        hmember.owner o howner⟩
  | alike hshares hmember _ ho => exact .inr ⟨_, hshares, hfits (hsame ▸ hmember.kind.own), ho⟩

theorem define {sharing : Bool} {kind : MemberKind} (name : String) (hw : w.Sound Γ)
    (hΓ : sharing = true → Γ.shares) (hk : w.Offers sharing kind) :
    ∃ Δ, Continues Γ w Δ (w.gain (Member.define name kind).run returned) := by
  cases hfault : definitionFault? name kind with
  | some fault =>
    have hrun : (Member.define name kind).run.run w.store =
        (.error (.configuration name fault), w.store) := by
      rw [Member.define, hfault]
      rfl
    rw [World.gain, Store.after, hrun]
    exact staying (Store.Coherent.refl _) rfl rfl hw
  | none =>
    have hrun : (Member.define name kind).run.run w.store =
        (.ok ⟨.made w.store.made, name, .initial, none, kind⟩,
          w.store.after Store.nextMemberId) := by
      rw [Member.define, hfault]
      rfl
    rw [World.gain, Store.after, hrun]
    have ht := Store.enlarges_nextMemberId w.store
    have hfits {Δ : Ledger} {h : Holder} (hΔ : Δ.Awaits w.store h) (hk : kind.Fits Δ w.store h) :
        Member.Fits Δ (w.store.after Store.nextMemberId) h
          ⟨.made w.store.made, name, .initial, none, kind⟩ :=
      ⟨hk.onward (.of_enlarges ht),
        ⟨Nat.lt_succ_self w.store.made, hΔ _ (Nat.lt_irrefl w.store.made)⟩, nofun⟩
    have hheld {Δ : Ledger} (hw : w.Sound Δ) (hm : Member.Genuine Δ
        (w.store.after Store.nextMemberId) ⟨.made w.store.made, name, .initial, none, kind⟩) :=
      (hw.withStore (.of_enlarges ht) hw.store.nextMemberId).hold
        (List.forall_mem_singleton.mpr hm)
    -- The new member has its identity for the one who has what it is made of.
    rcases hw.fits_of_offers hΓ hk with hfree | ⟨o, hshares, hshared, ho⟩
    · exact hw.making ht fun Δ hagrees hw hΔ =>
        hheld hw (.own (hfits hΔ (hfree.agree hagrees)))
    · exact hw.making ht fun Δ hagrees hw hΔ =>
        hheld hw (.alike (hagrees.shares ▸ hshares) (hfits hΔ (hshared.agree hagrees)) rfl ho)

theorem copy {m : Member} {owner : Option ObjectId} (hw : w.Sound Γ) (hm : m ∈ w.members)
    (ho : ∀ o ∈ owner, o.index < w.store.objects.size) :
    ∃ Δ, Continues Γ w Δ (w.gain (Store.copyFor owner m) ([·])) := by
  have ht := Store.enlarges_copyFor owner m w.store
  refine hw.making (h := .owned owner) ht fun Δ _ hw hΔ => ?_
  obtain ⟨_, hkind⟩ := (hw.members m hm).exists_kind
  obtain ⟨copy, t, hrun, -, hsound, hcopy, -⟩ := hw.store.copyFor hΔ ho hkind
  obtain rfl : w.store.after (Store.copyFor owner m) = t := congrArg Prod.snd hrun
  obtain rfl : ((Store.copyFor owner m).run w.store).1 = copy := congrArg Prod.fst hrun
  exact hw.gain (.of_enlarges ht) hsound (List.forall_mem_singleton.mpr hcopy)

theorem setFlag {m : Member} (hw : w.Sound Γ) (hm : m ∈ w.members) (flag : MemberFlag)
    (on : Bool) : ∃ Δ, Continues Γ w Δ { w with members := m.setFlag flag on :: w.members } := by
  have hflagged : (m.setFlag flag on).Genuine Γ w.store := (hw.members m hm).of_same rfl rfl rfl
  exact staying (Store.Coherent.refl _) rfl rfl (hw.hold (List.forall_mem_singleton.mpr hflagged))

theorem get {v : View} {adapter : Adapter} {xs : List Sighting} (hw : w.Sound Γ) (hv : w.Sees v)
    (hx : ∀ x ∈ xs, v.Shows adapter w.store x) :
    ∃ Δ, Continues Γ w Δ (w.gain (xs.mapM v.handOut) id) := by
  have hgets {Δ : Ledger} (hw : w.Sound Δ) (hΔ : Δ.Awaits w.store (.owned v.owner?)) :
      ((w.store.after (xs.mapM v.handOut)).Sound Δ ∧
        w.store.Enlarges (w.store.after (xs.mapM v.handOut))) ∧
      w.store.Enlarges (w.store.after (xs.mapM v.handOut)) ∧
      List.Forall₂ (fun _ (m : Member) => m.Genuine Δ (w.store.after (xs.mapM v.handOut))) xs
        ((xs.mapM v.handOut).run w.store).1 := by
    refine Store.mapM_along (R := Store.Enlarges) (P := fun t => t.Sound Δ ∧ w.store.Enlarges t)
      (Q := fun t _ (m : Member) => m.Genuine Δ t) (fun x hxs t ⟨hsound, ht⟩ => ?_)
      (fun _ _ _ _ _ hu hm => hm.onward (.of_enlarges hu)) ⟨hw.store, Store.Coherent.refl _⟩
    obtain ⟨m, u, hrun, hu, hsound, hm⟩ := hsound.handOut (v := v)
      (hΔ.onward (.of_enlarges ht)) (fun o ho => by rw [ht.objects]; exact hv.owner hw o ho)
      ((hv.fits hw (View.draws_of_shows (hx x hxs))).onward (.of_enlarges ht))
    rw [Store.after, hrun]
    exact ⟨⟨hsound, Store.Coherent.trans ht hu⟩, hu, hm⟩
  refine hw.making (h := .owned v.owner?)
    (hgets (hw.agree Ledger.agrees_awaiting) Ledger.awaits_awaiting).2.1 fun Δ _ hw hΔ => ?_
  obtain ⟨⟨hsound, -⟩, ht, hmembers⟩ := hgets hw hΔ
  refine hw.gain (.of_enlarges ht) hsound fun m hm => ?_
  obtain ⟨x, -, hgenuine⟩ := exists_mem_of_forall₂ hmembers hm
  exact hgenuine

theorem add {v : View} {m : Member} (hw : w.Sound Γ) (hv : w.Sees v) (hm : m ∈ w.members)
    (vouched : Bool) (hstrays : v.owner? = none → Γ.shares → ∀ copy t,
      (v.add m vouched).run.run w.store = (.ok copy, t) → Γ.strays copy) :
    ∃ Δ, Continues Γ w Δ (w.gain (v.add m vouched).run returned) := by
  have hagrees := Ledger.agrees_awaiting (Γ := Γ) (s := w.store)
    (h := .owned (v.owner?.or m.owner))
  obtain ⟨outcome, t, hrun, ht, hsound, hcopy, hkeeps⟩ :=
    hv.sound_add (hw.agree hagrees) hm Ledger.awaits_awaiting vouched hstrays
  obtain rfl : w.store.after (v.add m vouched).run = t := congrArg Prod.snd hrun
  obtain rfl : ((v.add m vouched).run.run w.store).1 = outcome := congrArg Prod.fst hrun
  refine ⟨_, hagrees, ht, ?_, (hw.agree hagrees).gain ht hsound fun copy h => ?_⟩
  · exact (Store.Keeps.refl w.store).trans_of hkeeps fun p hp hthere =>
      (hagrees.holder p hthere).trans hp
  · refine hcopy copy ?_
    cases houtcome : ((v.add m vouched).run.run w.store).1 with
    | error failure =>
      rw [houtcome] at h
      cases h
    | ok added =>
      rw [houtcome] at h
      rw [List.mem_singleton.mp h]

theorem remove {v : View} (hw : w.Sound Γ) (hv : w.Sees v) (name : String) :
    ∃ Δ, Continues Γ w Δ (w.gain (v.remove name).run fun removed =>
      (returned removed).flatMap (·.toList)) := by
  obtain ⟨outcome, t, hrun, ht, hsound, hremoved, hkeeps⟩ := hv.sound_remove hw name
  obtain rfl : w.store.after (v.remove name).run = t := congrArg Prod.snd hrun
  obtain rfl : ((v.remove name).run.run w.store).1 = outcome := congrArg Prod.fst hrun
  exact ⟨Γ, .refl Γ _, ht, hkeeps, hw.gain ht hsound hremoved⟩

/-- No one gets to write what the declarations have. -/
theorem ne_template_of_writes {c : CellId} (hw : w.Sound Γ) (hc : w.Writes c) :
    Γ (.cell c) ≠ .template := by
  have hne {h : Holder} (hown : Γ (.cell c) = h) (hh : h ≠ .template) : Γ (.cell c) ≠ .template :=
    hown ▸ hh
  cases hc with
  | own hm hc =>
    obtain ⟨_, hkind⟩ := (hw.members _ hm).exists_kind
    exact hne (hkind.own _ (MemberKind.cell_mem_own.mpr hc)).2 nofun
  | shared hm hc =>
    obtain ⟨_, hkind⟩ := (hw.members _ hm).exists_kind
    exact (hkind.shared _ hc).2.ne_template
  | held hc => exact hne (hw.cells _ hc).2 nofun
  | base ho => exact hne (hw.store.objects _ _ ho).1.2 nofun

theorem setCell {c : CellId} {v : Value} (hw : w.Sound Γ) (hc : w.Writes c) (hv : w.Knows v) :
    ∃ Δ, Continues Γ w Δ (w.withStore (w.store.setCell c v)) := by
  have ht : w.store.Onward (w.store.setCell c v) := .of_same Store.has_setCell.mpr rfl
  refine ⟨Γ, .refl Γ _, ht, .setCell (fun k hk hkc => ?_) v,
    hw.withStore ht (hw.store.setCell c (hw.vouches hv))⟩
  subst hkc
  exact hw.ne_template_of_writes hc hk

theorem wrap {v : Value} (hw : w.Sound Γ) (hv : w.Knows v) (typeNames : List String) :
    ∃ Δ, Continues Γ w Δ (w.withStore (w.store.after (Store.wrapAs v typeNames))) := by
  -- The list is the new object's, and so is its base value.
  let Δ := Γ.awaiting w.store (.base ⟨w.store.objects.size⟩)
  have hagrees : Γ.Agrees Δ w.store := Ledger.agrees_awaiting
  have hcell : Δ (.cell ⟨w.store.cells.size⟩) = .base ⟨w.store.objects.size⟩ :=
    Ledger.awaits_awaiting _ (Nat.lt_irrefl w.store.cells.size)
  have hlist : Δ (.list ⟨w.store.lists.size⟩) = .base ⟨w.store.objects.size⟩ :=
    Ledger.awaits_awaiting _ (Nat.lt_irrefl w.store.lists.size)
  have hmade : w.store.Enlarges
      ((w.store.after (Store.addCell v)).after (Store.addList .empty)) :=
    Store.Coherent.trans (Store.enlarges_addCell v _) (Store.enlarges_addList .empty _)
  have hkeeps : Store.Keeps (fun _ => True) w.store (w.store.after (Store.wrapAs v typeNames)) :=
    hmade.keeps.trans (.of_same rfl rfl (Nat.le_refl _) (Nat.le_refl _))
  have ht : w.store.Onward (w.store.after (Store.wrapAs v typeNames)) :=
    Store.Coherent.trans (.of_enlarges hmade) (.wrapAs w.store v typeNames)
  replace hw := hw.agree hagrees
  exact ⟨Δ, hagrees, ht, hkeeps.weaken fun _ _ => trivial,
    hw.withStore ht (hw.store.wrapAs (hw.vouches hv) hcell hlist typeNames)⟩

theorem setObject {o : ObjectId} {old state : ObjectState} (hw : w.Sound Γ)
    (ho : w.store.object? o = some old) (hstate : old.Becomes state) :
    ∃ Δ, Continues Γ w Δ (w.withStore (w.store.setObject o state)) :=
  have ht := Store.Onward.setObject ho hstate
  staying ht rfl rfl (hw.withStore ht (hw.store.setObject ho hstate))

theorem setScript {i : ScriptId} {script : Script} (hw : w.Sound Γ)
    (h : ∀ block, script.blocks.template = some block → block = ⟨script.text, 0⟩) :
    ∃ Δ, Continues Γ w Δ (w.withStore (w.store.setScript i script)) :=
  have ht := Store.Onward.setScript w.store i script
  staying ht rfl rfl (hw.withStore ht (hw.store.setScript i h))

/-- Nothing but the shelf and what is told to others has changed. -/
theorem aside {shelf : Array Value} {announced : Array Announcement} {modes : Array ErrorMode}
    (hw : w.Sound Γ) (hv : ∀ v ∈ shelf, v ∈ w.store.shelf ∨ w.store.Vouches Γ v) :
    ∃ Δ, Continues Γ w Δ (w.withStore
      { w.store with shelf := shelf, announced := announced, modes := modes }) := by
  have ht : w.store.Onward
      { w.store with shelf := shelf, announced := announced, modes := modes } :=
    .of_same (fun {p} => by cases p <;> exact id) rfl
  exact staying ht rfl rfl
    (hw.withStore ht (hw.store.frame rfl rfl rfl rfl (Nat.le_refl _) rfl hv))

end Sound

/-- Whatever is done, there is a ledger that is respected afterwards. -/
theorem Sound.deed {sharing : Bool} (hw : w.Sound Γ) (h : Deed sharing w w')
    (hΓ : Γ.Allows sharing w w') : ∃ Δ, Continues Γ w Δ w' := by
  cases h with
  | keep hv => exact hw.keep hv
  | share hv => exact hw.share hv
  | write script h => exact hw.write h
  | group hm h inherits => exact hw.group hm h inherits
  | define name hk => exact hw.define name hΓ.shares hk
  | copy hm ho => exact hw.copy hm ho
  | setFlag hm flag on => exact hw.setFlag hm flag on
  | get hv hx => exact hw.get hv hx
  | @add v m hv hm vouched =>
    refine hw.add hv hm vouched fun hnone hshares copy t hrun => hΓ.strays hshares copy ?_
    obtain rfl : w.store.after (v.add m vouched).run = t := congrArg Prod.snd hrun
    exact ⟨v, m, vouched, hv, hnone, hm, hrun⟩
  | remove hv name => exact hw.remove hv name
  | setCell hc hv => exact hw.setCell hc hv
  | setShelf hv => exact hw.aside fun v h => .inr (hw.vouches (hv v h))
  | readCell c => exact staying (Store.Coherent.refl _) rfl rfl (hw.hold (hw.store.cells c))
  | readShelf hv => exact staying (Store.Coherent.refl _) rfl rfl (hw.hold (hw.store.shelf _ hv))
  | wrap hv typeNames => exact hw.wrap hv typeNames
  | insertTypeName o name =>
    rcases w.store.insertTypeName_cases o name with hsame | ⟨old, state, ho, hstate, hset⟩
    · rw [hsame]
      exact staying (Store.Coherent.refl _) rfl rfl hw
    · rw [hset]
      exact hw.setObject ho hstate
  | release o =>
    rcases w.store.release_cases o with hsame | ⟨old, state, ho, hstate, hset⟩
    · rw [hsame]
      exact staying (Store.Coherent.refl _) rfl rfl hw
    · rw [hset]
      exact hw.setObject ho hstate
  | @checkOut env i template blocks h onCopy =>
    refine hw.setScript fun block hblock => ?_
    rw [Blocks.template_checkOut] at hblock
    rcases i.prepare_cases env w.store with ⟨fault, -, -, hrun⟩ |
      ⟨asked, prepared, remaining, hprepares, hrun⟩
    · cases h.symm.trans hrun
    · cases h.symm.trans hrun
      obtain ⟨hpristine, htemplate⟩ := hw.store.pristine hprepares
      exact (Option.some.inj (hblock.symm.trans htemplate)).trans hpristine
  | checkIn i block =>
    refine hw.setScript fun template htemplate => ?_
    rw [Blocks.template_checkIn] at htemplate
    exact hw.store.scripts i template htemplate
  | logMode mode => exact hw.aside fun _ => .inl
  | takeModes => exact hw.aside fun _ => .inl
  | takeAnnounced => exact hw.aside fun _ => .inl

theorem Sound.deeds {sharing : Bool} (hw : w.Sound Γ) (hΓ : Γ.Tolerates sharing)
    (h : Deeds sharing w w') : ∃ Δ, Continues Γ w Δ w' :=
  hw.along (fun hw hΓ h => hw.deed h (hΓ.allows _ _)) hΓ h

end World

/-! ## What deeds retain -/

/-- The types are the same, and objects and scripts are still there, the scripts with the texts that
they had. -/
structure Store.Retains (s t : Store) : Prop where
  types : t.types = s.types
  objects : s.objects.size ≤ t.objects.size
  scripts : s.scripts.size ≤ t.scripts.size
  texts : ∀ i, s.Has (.script i) → (t.script i).text = (s.script i).text

instance : Store.Coherent Store.Retains where
  refl _ := ⟨rfl, Nat.le_refl _, Nat.le_refl _, fun _ _ => rfl⟩
  trans h hrest := ⟨hrest.types.trans h.types, Nat.le_trans h.objects hrest.objects,
    Nat.le_trans h.scripts hrest.scripts, fun i hi =>
      (hrest.texts i (Nat.lt_of_lt_of_le hi h.scripts)).trans (h.texts i hi)⟩

theorem Store.Retains.of_same {s t : Store} (htypes : t.types = s.types)
    (hobjects : s.objects.size ≤ t.objects.size) (hscripts : t.scripts = s.scripts) :
    s.Retains t :=
  ⟨htypes, hobjects, Nat.le_of_eq (by rw [hscripts]), fun _ _ => by
    rw [Store.script, Store.script, hscripts]⟩

theorem Store.text_setScript (s : Store) (i k : ScriptId) (blocks : Blocks Block) :
    ((s.setScript i { s.script i with blocks := blocks }).script k).text = (s.script k).text := by
  by_cases hindex : i.index = k.index
  · by_cases hthere : i.index < s.scripts.size
    · simp [script, setScript, ← hindex, hthere]
    · have hsame : s.setScript i { s.script i with blocks := blocks } = s := by
        simp [setScript, Array.setIfInBounds, hthere]
      rw [hsame]
  · simp [script, setScript, hindex]

namespace World

variable {sharing : Bool} {w w' : World}

theorem Deed.retains (h : Deed sharing w w') : w.store.Retains w'.store := by
  have hmade {s t : Store} (h : s.Enlarges t) : s.Retains t :=
    .of_same h.types (Nat.le_of_eq (by rw [h.objects])) h.scripts
  have hscript (i : ScriptId) (blocks : Blocks Block) : w.store.Retains
      (w.store.setScript i { w.store.script i with blocks := blocks }) :=
    ⟨rfl, Nat.le_refl _, Nat.le_of_eq Array.size_setIfInBounds.symm, fun k hk =>
      w.store.text_setScript i k blocks⟩
  cases h with
  | keep | share | group | setFlag | setCell | setShelf | readCell | readShelf
  | logMode | takeModes | takeAnnounced => exact .of_same rfl (Nat.le_refl _) rfl
  | write script h =>
    refine ⟨rfl, Nat.le_refl _, Nat.le_of_lt (by simp), fun i hi => ?_⟩
    rw [Store.script, Store.script, Array.getElem?_push_lt hi, Array.getElem?_eq_getElem hi]
  | checkOut | checkIn => exact hscript _ _
  | @define kind name hk =>
    unfold gain Store.after Member.define
    split <;> exact .of_same rfl (Nat.le_refl _) rfl
  | copy hm ho => exact hmade (Store.enlarges_copyFor _ _ w.store)
  | @get v adapter xs hv hx => exact hmade (Store.Within.mapM v.enlarges_handOut xs w.store)
  | @add v m hv hm vouched =>
    rcases v.after_add m vouched w.store with hsame | ⟨u, l, members, announced, hu, hafter⟩
    · rw [gain, hsame]
      exact Store.Coherent.refl _
    · rw [gain, hafter]
      exact Store.Coherent.trans (hmade hu) (.of_same rfl (Nat.le_refl _) rfl)
  | @remove v hv name =>
    rcases v.run_remove name w.store with ⟨outcome, hrun, -⟩ | ⟨l, removed, members, -, -, hrun⟩
    · rw [gain, Store.after, hrun]
      exact Store.Coherent.refl _
    · rw [gain, Store.after, hrun]
      exact .of_same rfl (Nat.le_refl _) rfl
  | wrap hv typeNames =>
    exact .of_same rfl (Store.Onward.wrapAs w.store _ typeNames).objects rfl
  | insertTypeName o name =>
    rcases w.store.insertTypeName_cases o name with hsame | ⟨old, state, -, -, hset⟩
    · rw [hsame]
      exact Store.Coherent.refl _
    · rw [hset]
      exact .of_same rfl (Nat.le_of_eq Array.size_setIfInBounds.symm) rfl
  | release o =>
    rcases w.store.release_cases o with hsame | ⟨old, state, -, -, hset⟩
    · rw [hsame]
      exact Store.Coherent.refl _
    · rw [hset]
      exact .of_same rfl (Nat.le_of_eq Array.size_setIfInBounds.symm) rfl

theorem Deeds.retains (h : Deeds sharing w w') : w.store.Retains w'.store := by
  induction h with
  | refl => exact Store.Coherent.refl _
  | tail _ hlast ih => exact Store.Coherent.trans ih hlast.retains

end World

end DynamicMembers
