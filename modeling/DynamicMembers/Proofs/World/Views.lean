import DynamicMembers.Proofs.Declaration.DeclaredTypes
import DynamicMembers.Proofs.Script.Runs
import DynamicMembers.Proofs.View.Changes
import DynamicMembers.Proofs.View.Sources
import DynamicMembers.Proofs.World.Writes

/-! # Views respect a ledger

What a view makes is made for its owner: the copies that it hands out, and the copy that it
puts into its list. A view without an owner makes them for no one, and its list may be that
of an object's member set all the same; then what is added has strayed there. So a store and
what is held of it, if they respect a ledger (`World.Sound`), go on to do so when members are
handed out, added and removed.
-/
namespace DynamicMembers

/-- Store and holdings respect the ledger. -/
structure World.Sound (Γ : Ledger) (w : World) : Prop where
  store : w.store.Sound Γ
  members : ∀ m ∈ w.members, m.Genuine Γ w.store
  kinds : ∀ kind ∈ w.kinds, kind.Fits Γ w.store (.owned none)
  cells : ∀ c ∈ w.cells, w.store.Has (.cell c) ∧ Γ (.cell c) = .shared
  scripts : ∀ i ∈ w.scripts, w.store.Has (.script i) ∧ Γ (.script i) ≠ .template

namespace World.Sound

variable {Γ Δ : Ledger} {w : World} {t : Store}

theorem agree (hw : w.Sound Γ) (hΔ : Γ.Agrees Δ w.store) : w.Sound Δ where
  store := hw.store.agree hΔ
  members m hm := (hw.members m hm).agree hΔ
  kinds kind hk := (hw.kinds kind hk).agree hΔ
  cells c hc := ⟨(hw.cells c hc).1, (hΔ.holder _ (hw.cells c hc).1).trans (hw.cells c hc).2⟩
  scripts i hi := by
    obtain ⟨hthere, hfree⟩ := hw.scripts i hi
    rw [hΔ.holder _ hthere]
    exact ⟨hthere, hfree⟩

theorem withStore (hw : w.Sound Γ) (ht : w.store.Onward t) (hs : t.Sound Γ) :
    (w.withStore t).Sound Γ where
  store := hs
  members m hm := (hw.members m hm).onward ht
  kinds kind hk := (hw.kinds kind hk).onward ht
  cells c hc := ⟨ht.has (hw.cells c hc).1, (hw.cells c hc).2⟩
  scripts i hi := ⟨ht.has (hw.scripts i hi).1, (hw.scripts i hi).2⟩

theorem hold (hw : w.Sound Γ) {members : List Member}
    (hm : ∀ m ∈ members, m.Genuine Γ w.store) :
    ({ w with members := members ++ w.members } : World).Sound Γ where
  store := hw.store
  members m h := (List.mem_append.mp h).elim (hm m) (hw.members m)
  kinds := hw.kinds
  cells := hw.cells
  scripts := hw.scripts

theorem vouches (hw : w.Sound Γ) {v : Value} (hv : w.Knows v) : w.store.Vouches Γ v :=
  fun m hm => hw.members m (hv m hm)

theorem gain {α : Type} (hw : w.Sound Γ) {x : StateM Store α} {got : α → List Member}
    (ht : w.store.Onward (w.store.after x)) (hs : (w.store.after x).Sound Γ)
    (hm : ∀ m ∈ got (x.run w.store).1, m.Genuine Γ (w.store.after x)) : (w.gain x got).Sound Γ :=
  (hw.withStore ht hs).hold hm

end World.Sound

/-! ## Views -/

/-- Whose list a view with this owner may have: that of the object, or of its members. If there is
no owner, the one whose list it is is gone, or members without an owner have it, too. -/
def Holder.Lists (Γ : Ledger) (s : Store) (viewer : Option ObjectId) : Holder → Prop
  | .template | .shared => False
  | .base o => viewer = some o
  | .owned owner => (∀ o ∈ viewer, owner = some o) ∧ (viewer = none →
    ∀ o ∈ owner, o.index < s.objects.size ∧ (s.isAlive o = false ∨ Γ.shares))

namespace World.Sees

variable {Γ : Ledger} {w : World} {v : View}

/-- The owner of a view is an object. -/
theorem owner (hw : w.Sound Γ) (hv : w.Sees v) :
    ∀ o ∈ v.owner?, o.index < w.store.objects.size := by
  cases hv with
  | object ho mask =>
    rintro o ⟨⟩
    exact ho
  | @member m v hm hv mask =>
    intro o hown
    refine (hw.members m hm).owner o ?_
    have hown : v.owner? = some o := hown
    rw [View.owner?_of_ofMember? hv] at hown
    exact (Option.filter_eq_some_iff.mp hown).1

/-- The list of a view is that of its owner. If the view has none, whose list it was is gone, or the
list is shared. -/
theorem list (hw : w.Sound Γ) (hv : w.Sees v) {l : ListId} (hl : v.list? w.store = some l) :
    w.store.Has (.list l) ∧ (Γ (.list l)).Lists Γ w.store v.owner? := by
  have hobject {o : ObjectId} (howner : v.owner? = some o)
      (ho : (w.store.object? o).map (·.members) = some l) :
      w.store.Has (.list l) ∧ (Γ (.list l)).Lists Γ w.store v.owner? := by
    obtain ⟨state, hstate, rfl⟩ := Option.map_eq_some_iff.mp ho
    obtain ⟨hthere, hbase⟩ := (hw.store.objects o state hstate).2
    rw [hbase]
    exact ⟨hthere, howner⟩
  cases hv with
  | @object o ho mask => exact hobject rfl hl
  | @member m v hm hv mask =>
    replace hl : v.list? w.store = some l := hl
    have howner : v.owner? = m.owner.filter w.store.isAlive := View.owner?_of_ofMember? hv
    rcases View.ofMember?_cases hv with ⟨view, inherits, hkind, rfl⟩ | ⟨l', inherits, hkind, rfl⟩
    · have hl : ((w.store.ownerOf m).bind w.store.object?).map (·.members) = some l := by
        cases view <;> first | exact hl | cases hl
      obtain ⟨state, hstate, hmembers⟩ := Option.map_eq_some_iff.mp hl
      obtain ⟨o, ho, hstate⟩ := Option.bind_eq_some_iff.mp hstate
      exact hobject ho (by rw [hstate, ← hmembers]; rfl)
    · obtain rfl : l' = l := by simpa [View.list?] using hl
      have hown : Part.list l' ∈ m.kind.own := by simp [hkind, MemberKind.own, MemberKind.list?]
      show _ ∧ (Γ (.list l')).Lists Γ w.store (m.owner.filter w.store.isAlive)
      cases hw.members m hm with
      | own hfits =>
        obtain ⟨hthere, hholder⟩ := hfits.kind.own _ hown
        rw [hholder]
        refine ⟨hthere, fun o ho => (Option.filter_eq_some_iff.mp ho).1, fun hnone o ho =>
          ⟨hfits.owner o ho, .inl ?_⟩⟩
        rw [Option.mem_def.mp ho] at hnone
        simpa using hnone
      | alike hΓ hfits hnone ho =>
        obtain ⟨hthere, hholder⟩ := hfits.kind.own _ hown
        rw [hholder, hnone]
        refine ⟨hthere, by simp, fun _ o ho' => ?_⟩
        cases ho'
        exact ⟨ho, .inr hΓ⟩

theorem ne_template (hw : w.Sound Γ) (hv : w.Sees v) {l : ListId} (hl : v.list? w.store = some l) :
    Γ (.list l) ≠ .template := by
  obtain ⟨-, hlists⟩ := hv.list hw hl
  intro htemplate
  rwa [htemplate] at hlists

end World.Sees

/-! ## What is handed out -/

/-- What is to be handed out fits the ledger, whichever way it is handed out. -/
def Sighting.Fits (Γ : Ledger) (s : Store) (v : View) (x : Sighting) : Prop :=
  match x.origin with
  | .reserved which => ∃ o, v.owner? = some o ∧ x.member = .reserved o which
  | .stored => x.member.Genuine Γ s
  | .declared | .supplied => ∃ h, x.member.kind.Fits Γ s h

section

variable {Γ : Ledger} {s t : Store} {v : View} {x : Sighting}

theorem Sighting.Fits.onward (hx : x.Fits Γ s v) (ht : s.Onward t) : x.Fits Γ t v := by
  obtain ⟨m, origin⟩ := x
  cases origin with
  | reserved which => exact hx
  | stored => exact Member.Genuine.onward hx ht
  | declared => exact hx.imp fun _ h => h.onward ht
  | supplied => exact hx.imp fun _ h => h.onward ht

theorem AdapterRow.fits_toMember? {row : AdapterRow} {tag : AdapterTag} {base : CellId}
    {o : ObjectId} {m : Member} (hbase : s.Has (.cell base) ∧ Γ (.cell base) = .base o)
    (h : row.toMember? tag base = some m) (holder : Holder) : m.kind.Fits Γ s holder := by
  unfold toMember? at h
  split at h
  · cases h
  · cases h
    have hkind : (row.memberKind tag base).own = [] ∧
        (row.memberKind tag base).sharedCell? = some base ∧
        (row.memberKind tag base).slot? = none ∧
        (row.memberKind tag base).scripts = [] := by
      unfold memberKind
      split <;> exact ⟨rfl, rfl, rfl, rfl⟩
    refine ⟨?_, fun c hc => ?_, ?_⟩
    · simp [hkind.1]
    · obtain rfl : base = c := Option.some.inj (hkind.2.1.symm.trans hc)
      rw [hbase.2]
      exact ⟨hbase.1, hkind.2.2.1⟩
    · simp [hkind.2.2.2]

theorem Member.genuine_reserved {o : ObjectId} (ho : o.index < s.objects.size)
    (which : ReservedMember) : (Member.reserved o which).Genuine Γ s := by
  have hkind : (Member.reserved o which).kind.Fits Γ s (.owned (some o)) := by
    cases which <;> exact ⟨nofun, nofun, nofun⟩
  refine .own ⟨hkind, rfl, ?_⟩
  rintro _ ⟨⟩
  exact ho

/-- A member handed out belongs to the ledger's owner of what is made for it. -/
theorem Store.Sound.handOut (hs : s.Sound Γ) (hΓ : Γ.Awaits s (.owned v.owner?))
    (ho : ∀ o ∈ v.owner?, o.index < s.objects.size) (hx : x.Fits Γ s v) :
    ∃ m t, (v.handOut x).run s = (m, t) ∧ s.Enlarges t ∧ t.Sound Γ ∧ m.Genuine Γ t := by
  obtain ⟨m, origin⟩ := x
  have hcopied (hm : ∃ h, m.kind.Fits Γ s h) : ∃ copy t,
      (Store.copyFor v.owner? m).run s = (copy, t) ∧ s.Enlarges t ∧ t.Sound Γ ∧
        copy.Genuine Γ t := by
    obtain ⟨h, hm⟩ := hm
    obtain ⟨copy, t, hrun, ht, hsound, hcopy, -⟩ := hs.copyFor hΓ ho hm
    exact ⟨copy, t, hrun, ht, hsound, hcopy⟩
  cases origin with
  | reserved which =>
    obtain ⟨o, hown, rfl⟩ := hx
    have hreserved := Member.genuine_reserved (Γ := Γ) (ho o hown) which
    cases which with
    | adapted =>
      have hmade := enlarges_nextMemberId s
      have hkind : (Member.reserved o .adapted).kind.Fits Γ (s.after Store.nextMemberId)
          (.owned (some o)) := ⟨nofun, nofun, nofun⟩
      refine ⟨_, _, rfl, hmade, hs.nextMemberId, .own ⟨hkind, ⟨Nat.lt_succ_self s.made, ?_⟩,
        (hreserved.onward (.of_enlarges hmade)).owner⟩⟩
      rw [hΓ (.serial s.made) (Nat.lt_irrefl s.made), hown]
      rfl
    | _ => exact ⟨_, _, rfl, Coherent.refl s, hs, hreserved⟩
  | stored => exact ⟨_, _, rfl, Coherent.refl s, hs, hx⟩
  | declared => exact hcopied hx
  | supplied => exact hcopied hx

end

theorem World.Sees.fits {adapter : Adapter} {Γ : Ledger} {w : World} {v : View} {x : Sighting}
    (hw : w.Sound Γ) (hv : w.Sees v) (hx : v.Draws adapter w.store x) : x.Fits Γ w.store v := by
  cases hx with
  | reserved ho => exact ⟨_, ho, rfl⟩
  | @stored l m hl hm =>
    exact (hw.store.lists l m hm).genuine (hv.ne_template hw hl)
  | @inherited o state m ho hstate hm =>
    have hadmits := hw.store.lists _ m hm
    rw [(hw.store.objects o state hstate).2.2] at hadmits
    exact hadmits.1
  | @declared o entry m ho hentry hm =>
    obtain ⟨h, hfits⟩ := (hw.store.types entry hentry m hm).exists_fits
    exact ⟨h, hfits.kind⟩
  | @supplied o state row m ho hstate hrow =>
    exact ⟨.shared, AdapterRow.fits_toMember? (hw.store.objects o state hstate).1 hrow .shared⟩

/-! ## Changes of a view -/

theorem MemberList.mem_of_addAll {l l' : MemberList} {members : List Member}
    (h : l.addAll members = .ok l') : ∀ m ∈ l'.members, m ∈ l.members ∨ m ∈ members := by
  induction members generalizing l with
  | nil =>
    cases h
    exact fun m hm => .inl hm
  | cons first rest ih =>
    obtain ⟨added, hadd, hrest⟩ := exists_of_bind_eq_ok h
    intro m hm
    rcases ih hrest m hm with hold | hm
    · rcases (members_of_add hadd).2 m hold with rfl | hl
      · exact .inr List.mem_cons_self
      · exact .inl hl
    · exact .inr (List.mem_cons_of_mem first hm)

theorem MemberList.mem_of_ofMembers {l : MemberList} {members : List Member}
    (h : ofMembers members = .ok l) : ∀ m ∈ l.members, m ∈ members :=
  fun m hm => (mem_of_addAll h m hm).elim nofun id

namespace World.Sees

variable {Γ : Ledger} {w : World} {v : View} {m : Member} {vouched : Bool}

/-- What the list of a view admits when it is for the owner of the view, or for the one whose view
it was, or has strayed. -/
theorem admits (hw : w.Sound Γ) (hv : w.Sees v) {l : ListId} (hl : v.list? w.store = some l)
    {t : Store} (ht : w.store.Onward t) (hm : m.Genuine Γ t)
    (howner : ∀ o ∈ v.owner?, m.owner = some o)
    (hstrays : v.owner? = none → Γ.shares → Γ.strays m) : (Γ (.list l)).Admits Γ t m := by
  obtain ⟨-, hlists⟩ := hv.list hw hl
  have hviewer {o : ObjectId} (ho : v.owner? = some o) : o.index < t.objects.size :=
    Nat.lt_of_lt_of_le (hv.owner hw o ho) ht.objects
  cases hholder : Γ (.list l) with
  | template | shared =>
    rw [hholder] at hlists
    exact hlists.elim
  | base o =>
    rw [hholder] at hlists
    exact ⟨hm, hviewer hlists, fun _ => howner o hlists⟩
  | owned owner =>
    rw [hholder] at hlists
    refine ⟨hm, fun o ho => ?_⟩
    cases hnone : v.owner? with
    | some viewer =>
      obtain rfl : viewer = o := Option.some.inj ((hlists.1 viewer hnone).symm.trans ho)
      exact ⟨hviewer hnone, fun _ => .inl (howner viewer hnone)⟩
    | none =>
      obtain ⟨hobject, hdead | hshares⟩ := hlists.2 hnone o ho
      · refine ⟨Nat.lt_of_lt_of_le hobject ht.objects, fun halive => ?_⟩
        rw [ht.alive hobject halive] at hdead
        cases hdead
      · exact ⟨Nat.lt_of_lt_of_le hobject ht.objects, fun _ => .inr (hstrays hnone hshares)⟩

/-- What an addition makes, one thing after another, if it is not refused. -/
theorem run_add (hw : w.Sound Γ) (hv : w.Sees v) (hm : m ∈ w.members)
    (hΓ : Γ.Awaits w.store (.owned (v.owner?.or m.owner)))
    (hrefusal : v.addRefusal? w.store m vouched = none) {l : ListId}
    (hl : v.list? w.store = some l) : ∃ copy u replaced members,
      (u.list l).add copy true = .ok (replaced, members) ∧
      (v.add m vouched).run.run w.store =
        (.ok copy, (u.setList l members).after (v.announce copy.name)) ∧
      w.store.Enlarges u ∧ u.Sound Γ ∧ copy.Genuine Γ u ∧
      w.store.DeepCopy u (v.owner?.or m.owner) w.store.lists.size m copy := by
  have hgenuine := hw.members m hm
  have howner : ∀ o ∈ v.owner?.or m.owner, o.index < w.store.objects.size := by
    intro o ho
    rcases Option.or_eq_some_iff.mp ho with ho | ⟨-, ho⟩
    · exact hv.owner hw o ho
    · exact hgenuine.owner o ho
  obtain ⟨_, hkind⟩ := hgenuine.exists_kind
  obtain ⟨copy, u, hrun, hu, hsound, hcopy, hdeep⟩ := hw.store.copyFor hΓ howner hkind
  obtain ⟨replaced, members, hadd, hresult⟩ := View.run_add hrefusal hl hrun
  exact ⟨copy, u, replaced, members, hadd, hresult, hu, hsound, hcopy, hdeep⟩

/-- The copy that is put into a list is deep, so the list is not nested in it. -/
theorem sound_put (hw : w.Sound Γ) (hv : w.Sees v) (hm : m ∈ w.members) {l : ListId}
    (hl : v.list? w.store = some l) {u : Store} {copy : Member} {replaced : Option Member}
    {members : MemberList} (hadd : (u.list l).add copy true = .ok (replaced, members))
    (hu : w.store.Enlarges u) (hsound : u.Sound Γ) (hcopy : copy.Genuine Γ u)
    (hdeep : w.store.DeepCopy u (v.owner?.or m.owner) w.store.lists.size m copy)
    (hstrays : v.owner? = none → Γ.shares → Γ.strays copy) : (u.setList l members).Sound Γ := by
  obtain ⟨_, hkind⟩ := (hw.members m hm).exists_kind
  obtain ⟨levels, hlevels⟩ := hw.store.grounded hkind
  obtain ⟨hthere, -⟩ := hv.list hw hl
  refine hsound.setList (n := w.store.lists.size) fun other hother => ?_
  rcases (MemberList.members_of_add hadd).2 other hother with rfl | hold
  · refine .inr ⟨hv.admits hw hl (.of_enlarges hu) hcopy (fun o ho => ?_) hstrays, ?_⟩
    · rw [hdeep.freshCopy.owner, Option.mem_def.mp ho]
      rfl
    · refine (hdeep.transfer hlevels (Store.Coherent.refl _) (.setList ?_ members)).grounded
      rintro k hk rfl
      exact hk hthere
  · exact .inl hold

theorem sound_add (hw : w.Sound Γ) (hv : w.Sees v) (hm : m ∈ w.members)
    (hΓ : Γ.Awaits w.store (.owned (v.owner?.or m.owner))) (vouched : Bool)
    (hstrays : v.owner? = none → Γ.shares → ∀ copy t,
      (v.add m vouched).run.run w.store = (.ok copy, t) → Γ.strays copy) :
    ∃ outcome t, (v.add m vouched).run.run w.store = (outcome, t) ∧ w.store.Onward t ∧
      t.Sound Γ ∧ (∀ copy, outcome = .ok copy → copy.Genuine Γ t) ∧
      Store.Keeps (Γ · = .template) w.store t := by
  cases hrefusal : v.addRefusal? w.store m vouched with
  | some refusal =>
    exact ⟨_, _, View.add_of_refusal hrefusal, Store.Coherent.refl _, hw.store,
      (fun _ h => by cases h), .refl _⟩
  | none =>
    cases hl : v.list? w.store with
    | none =>
      exact ⟨_, _, View.add_of_no_list hrefusal hl, Store.Coherent.refl _, hw.store,
        (fun _ h => by cases h), .refl _⟩
    | some l =>
      obtain ⟨copy, u, replaced, members, hadd, hresult, hu, hsound, hcopy, hdeep⟩ :=
        hv.run_add hw hm hΓ hrefusal hl
      have hset := hv.sound_put hw hm hl hadd hu hsound hcopy hdeep fun hnone hshares =>
        hstrays hnone hshares _ _ hresult
      obtain ⟨announced, hannounced⟩ := v.exists_announced copy.name (u.setList l members)
      rw [hannounced] at hresult
      have hlater : u.Onward { u.setList l members with announced := announced } :=
        Store.Coherent.trans (.of_same Store.has_setList.mpr rfl)
          (.of_same (fun {p} => by cases p <;> exact id) rfl)
      refine ⟨_, _, hresult, Store.Coherent.trans (.of_enlarges hu) hlater,
        hset.frame rfl rfl rfl rfl (Nat.le_refl _) rfl fun _ => .inl,
        (fun _ h => by cases h; exact hcopy.onward hlater),
        (hu.keeps.weaken fun _ _ => trivial).trans
          (.setList_announced (fun k hk hkl => ?_) members announced)⟩
      subst hkl
      exact hv.ne_template hw hl hk

theorem sound_remove (hw : w.Sound Γ) (hv : w.Sees v) (name : String) :
    ∃ outcome t, (v.remove name).run.run w.store = (outcome, t) ∧ w.store.Onward t ∧
      t.Sound Γ ∧ (∀ m ∈ (World.returned outcome).flatMap (·.toList), m.Genuine Γ t) ∧
      Store.Keeps (Γ · = .template) w.store t := by
  rcases v.run_remove name w.store with ⟨outcome, hrun, hnone⟩ |
    ⟨l, removed, members, hl, hremove, hrun⟩
  · refine ⟨outcome, _, hrun, Store.Coherent.refl _, hw.store, fun m hm => ?_, .refl _⟩
    cases outcome with
    | error failure => simp [World.returned] at hm
    | ok removed => simp [World.returned, hnone removed rfl] at hm
  · have hne := hv.ne_template hw hl
    obtain ⟨hsubset, hremoved⟩ := MemberList.members_of_remove hremove
    have ht : w.store.Onward (w.store.setList l members) := .of_same Store.has_setList.mpr rfl
    refine ⟨_, _, hrun, ht, hw.store.setList (n := 0) fun m hm => .inl (hsubset hm),
      fun m hm => ?_, .setList (fun k hk hkl => ?_) members⟩
    · have hadmits := hw.store.lists l m (hremoved m (by simpa [World.returned] using hm))
      exact (hadmits.genuine hne).onward ht
    · subst hkl
      exact hne hk

end World.Sees

end DynamicMembers
