import DynamicMembers.Proofs.Store.DeepCopies
import DynamicMembers.Proofs.World.Deeds

/-! # Who has which part

A ledger says of every part of a store who has it: the declarations, the members that
belong to an owner, an object whose base value or list it is, or no one alone, since
variables, scripts and base values without an object are shared.
No store keeps such a ledger. It is what the operations respect without knowing it:
a member refers only to parts that are its owner's, and what is stored in a list of an
owner belongs to that owner as long as it is there (`Store.Sound`).

A member that is made of what another member is made of has the other's parts, and what is
added through it gets into the other's list. A ledger for worlds where that is done says so
(`Ledger.shares`), and which members may have got into a list in that way (`Ledger.strays`).

A ledger also says who is to have the parts that are yet to be made. So one ledger does
for a whole operation that makes parts for one holder.
-/
namespace DynamicMembers

/-- Who has a part. -/
inductive Holder
  /-- The declarations of a type. -/
  | template
  /-- No one alone. -/
  | shared
  /-- The object whose base value or list it is. -/
  | base (o : ObjectId)
  /-- The members of an owner, or those that have none. -/
  | owned (owner : Option ObjectId)

/-- Who has each part, and what is made of it for others. -/
structure Ledger where
  holder : Part → Holder
  /-- Are members without an owner made of what others have? -/
  shares : Prop
  /-- May this be in the list of a member whose owner is there, and not be that owner's? -/
  strays : Member → Prop

instance : CoeFun Ledger fun _ => Part → Holder := ⟨Ledger.holder⟩

/-! ## Stores that go on -/

/-- The second store is later than the first: parts and objects are still there, and an object that
was let go has not come back. -/
structure Store.Onward (s t : Store) : Prop where
  has : ∀ {p}, s.Has p → t.Has p
  objects : s.objects.size ≤ t.objects.size
  alive : ∀ {o : ObjectId}, o.index < s.objects.size → t.isAlive o = true → s.isAlive o = true

namespace Store.Onward

variable {s t : Store}

instance : Store.Coherent Store.Onward where
  refl _ := ⟨id, Nat.le_refl _, fun _ h => h⟩
  trans h hrest := ⟨fun hp => hrest.has (h.has hp), Nat.le_trans h.objects hrest.objects,
    fun ho halive => h.alive ho (hrest.alive (Nat.lt_of_lt_of_le ho h.objects) halive)⟩

theorem of_same (hhas : ∀ {p}, s.Has p → t.Has p) (hobjects : t.objects = s.objects) :
    s.Onward t where
  has := hhas
  objects := Nat.le_of_eq (by rw [hobjects])
  alive _ h := by rwa [← isAlive_congr hobjects]

theorem of_enlarges (h : s.Enlarges t) : s.Onward t := of_same h.has h.objects

end Store.Onward

/-! ## Members that respect a ledger -/

/-- Does a member of this kind share the cell with others if the holder has it? No variable is where
the base value of an object is. -/
def MemberKind.Borrows (kind : MemberKind) : Holder → Prop
  | .shared => True
  | .base _ => kind.slot? = none
  | _ => False

/-- What a kind has for itself is the holder's, and what it shares is shared. Declarations have
scripts of their own, which are only ever run on copies of their blocks as long as nothing else is
made of them. -/
structure MemberKind.Fits (Γ : Ledger) (s : Store) (h : Holder) (kind : MemberKind) : Prop where
  own : ∀ p ∈ kind.own, s.Has p ∧ Γ p = h
  shared : ∀ c ∈ kind.sharedCell?, s.Has (.cell c) ∧ kind.Borrows (Γ (.cell c))
  scripts : ∀ script ∈ kind.scripts, s.Has (.script script.1) ∧
    (Γ (.script script.1) = .template → script.2.onCopy = true ∨ Γ.shares) ∧
    (h = .template → Γ (.script script.1) = .template)

def MemberId.Fits (Γ : Ledger) (s : Store) (h : Holder) : MemberId → Prop
  | .made n => s.Has (.serial n) ∧ Γ (.serial n) = h
  | .kept o _ => h = .owned (some o)
  | .row => False

namespace Member

/-- All that the member has for itself is the holder's. -/
structure Fits (Γ : Ledger) (s : Store) (h : Holder) (m : Member) : Prop where
  kind : m.kind.Fits Γ s h
  id : m.id.Fits Γ s h
  owner : ∀ o ∈ m.owner, o.index < s.objects.size

/-- All that the member has for itself is its owner's. A member without an owner may have been made
of what the members of an object are made of. -/
inductive Genuine (Γ : Ledger) (s : Store) (m : Member) : Prop
  | own (h : m.Fits Γ s (.owned m.owner))
  | alike {o : ObjectId} (hΓ : Γ.shares) (h : m.Fits Γ s (.owned (some o))) (hm : m.owner = none)
      (ho : o.index < s.objects.size)

/-- What is declared for a type has parts of its own, or still shares them with a member that was
declared by hand. It is not attached. -/
structure Template (Γ : Ledger) (s : Store) (m : Member) : Prop where
  fits : m.Fits Γ s .template ∨ m.Genuine Γ s
  detached : m.flags.attached = false

end Member

/-- The members that the holder of a list has in it. Those of an owner that is still there belong
to that owner, or have strayed there. -/
def Holder.Admits (Γ : Ledger) (s : Store) : Holder → Member → Prop
  | .template, m => m.Fits Γ s .template
  | .shared, _ => False
  | .base o, m => m.Genuine Γ s ∧ o.index < s.objects.size ∧
    (s.isAlive o = true → m.owner = some o)
  | .owned owner, m => m.Genuine Γ s ∧ ∀ o ∈ owner, o.index < s.objects.size ∧
    (s.isAlive o = true → m.owner = some o ∨ Γ.strays m)

section

variable {Γ : Ledger} {s t : Store} {h : Holder} {kind other : MemberKind} {m : Member}

theorem MemberKind.Borrows.of_slot (hk : kind.Borrows h) (hslot : other.slot? = kind.slot?) :
    other.Borrows h := by
  cases h with
  | base o => exact hslot.trans hk
  | _ => exact hk

theorem MemberKind.Borrows.of_form (hk : kind.Borrows h) (hform : other.form = kind.form) :
    other.Borrows h :=
  hk.of_slot (MemberKind.slot?_of_form hform)

theorem MemberKind.Borrows.ne_template (hk : kind.Borrows h) : h ≠ .template := by
  rintro rfl
  exact hk

theorem MemberKind.Fits.onward (hk : kind.Fits Γ s h) (ht : s.Onward t) : kind.Fits Γ t h where
  own p hp := ⟨ht.has (hk.own p hp).1, (hk.own p hp).2⟩
  shared c hc := ⟨ht.has (hk.shared c hc).1, (hk.shared c hc).2⟩
  scripts script hscript :=
    ⟨ht.has (hk.scripts script hscript).1, (hk.scripts script hscript).2⟩

theorem MemberId.Fits.onward {id : MemberId} (hid : id.Fits Γ s h) (ht : s.Onward t) :
    id.Fits Γ t h := by
  cases id with
  | made n => exact ⟨ht.has hid.1, hid.2⟩
  | kept o which => exact hid
  | row => exact hid

theorem Member.Fits.onward (hm : m.Fits Γ s h) (ht : s.Onward t) : m.Fits Γ t h where
  kind := hm.kind.onward ht
  id := hm.id.onward ht
  owner o ho := Nat.lt_of_lt_of_le (hm.owner o ho) ht.objects

theorem Member.Genuine.onward (hm : m.Genuine Γ s) (ht : s.Onward t) : m.Genuine Γ t := by
  cases hm with
  | own h => exact .own (h.onward ht)
  | alike hΓ h hm ho => exact .alike hΓ (h.onward ht) hm (Nat.lt_of_lt_of_le ho ht.objects)

theorem Member.Template.onward (hm : m.Template Γ s) (ht : s.Onward t) : m.Template Γ t :=
  ⟨hm.fits.imp (·.onward ht) (·.onward ht), hm.detached⟩

theorem Holder.Admits.onward (hm : h.Admits Γ s m) (ht : s.Onward t) : h.Admits Γ t m := by
  cases h with
  | template => exact Member.Fits.onward hm ht
  | shared => exact hm
  | base o =>
    obtain ⟨hgenuine, hobject, howner⟩ := hm
    exact ⟨hgenuine.onward ht, Nat.lt_of_lt_of_le hobject ht.objects, fun halive =>
      howner (ht.alive hobject halive)⟩
  | owned owner =>
    refine ⟨hm.1.onward ht, fun o ho => ?_⟩
    obtain ⟨hobject, howner⟩ := hm.2 o ho
    exact ⟨Nat.lt_of_lt_of_le hobject ht.objects, fun halive => howner (ht.alive hobject halive)⟩

theorem Member.Genuine.exists_owner (hm : m.Genuine Γ s) : ∃ owner, m.Fits Γ s (.owned owner) := by
  cases hm with
  | own h => exact ⟨_, h⟩
  | alike hΓ h hm ho => exact ⟨_, h⟩

/-- Where no parts are shared, all that a member has is its owner's. -/
theorem Member.Genuine.fits (hm : m.Genuine Γ s) (hΓ : ¬ Γ.shares) :
    m.Fits Γ s (.owned m.owner) := by
  cases hm with
  | own h => exact h
  | alike hshares => exact absurd hshares hΓ

theorem Member.Genuine.of_same {other : Member} (hm : m.Genuine Γ s) (hid : other.id = m.id)
    (hkind : other.kind = m.kind) (howner : other.owner = m.owner) : other.Genuine Γ s := by
  have hfits {h : Holder} (hm : m.Fits Γ s h) : other.Fits Γ s h :=
    ⟨hkind ▸ hm.kind, hid ▸ hm.id, howner ▸ hm.owner⟩
  cases hm with
  | own h => exact .own (howner ▸ hfits h)
  | alike hΓ h hnone ho => exact .alike hΓ (hfits h) (howner.trans hnone) ho

theorem Member.Genuine.exists_kind (hm : m.Genuine Γ s) :
    ∃ owner, m.kind.Fits Γ s (.owned owner) :=
  hm.exists_owner.imp fun _ hfits => hfits.kind

theorem Member.Template.exists_fits (hm : m.Template Γ s) : ∃ h, m.Fits Γ s h := by
  rcases hm.fits with hfits | hgenuine
  · exact ⟨_, hfits⟩
  · obtain ⟨owner, hfits⟩ := hgenuine.exists_owner
    exact ⟨_, hfits⟩

theorem Member.Genuine.owner (hm : m.Genuine Γ s) : ∀ o ∈ m.owner, o.index < s.objects.size :=
  have ⟨_, hfits⟩ := hm.exists_owner
  hfits.owner

theorem Holder.Admits.genuine (hm : h.Admits Γ s m) (hne : h ≠ .template) : m.Genuine Γ s := by
  cases h with
  | template => exact absurd rfl hne
  | shared => exact hm.elim
  | base | owned => exact hm.1

theorem Holder.Admits.exists_fits (hm : h.Admits Γ s m) : ∃ h, m.Fits Γ s h := by
  by_cases hne : h = .template
  · subst hne
    exact ⟨_, hm⟩
  · obtain ⟨owner, hfits⟩ := (hm.genuine hne).exists_owner
    exact ⟨_, hfits⟩

end

/-! ## Ledgers for what is to be made -/

namespace Ledger

/-- The ledgers say the same of the parts that are there. -/
structure Agrees (Γ Δ : Ledger) (s : Store) : Prop where
  holder : ∀ p, s.Has p → Δ p = Γ p
  shares : Δ.shares = Γ.shares
  strays : Δ.strays = Γ.strays

/-- Parts that are not there yet are to be the holder's. -/
def Awaits (Γ : Ledger) (s : Store) (h : Holder) : Prop := ∀ p, ¬ s.Has p → Γ p = h

/-- The ledger for the time when new parts are the holder's. -/
def awaiting (Γ : Ledger) (s : Store) (h : Holder) : Ledger :=
  { Γ with holder := fun p => if s.Has p then Γ p else h }

variable {Γ Δ : Ledger} {s t : Store} {h : Holder}

theorem Agrees.refl (Γ : Ledger) (s : Store) : Γ.Agrees Γ s := ⟨fun _ _ => rfl, rfl, rfl⟩

theorem agrees_awaiting : Γ.Agrees (Γ.awaiting s h) s := ⟨fun _ hp => if_pos hp, rfl, rfl⟩

theorem awaits_awaiting : (Γ.awaiting s h).Awaits s h := fun _ hp => if_neg hp

theorem Awaits.onward (hΓ : Γ.Awaits s h) (ht : s.Onward t) : Γ.Awaits t h :=
  fun p hp => hΓ p fun hold => hp (ht.has hold)

theorem Agrees.trans {Θ : Ledger} (h : Γ.Agrees Δ s) (hrest : Δ.Agrees Θ t) (ht : s.Onward t) :
    Γ.Agrees Θ s where
  holder p hp := (hrest.holder p (ht.has hp)).trans (h.holder p hp)
  shares := hrest.shares.trans h.shares
  strays := hrest.strays.trans h.strays

end Ledger

section

variable {Γ Δ : Ledger} {s : Store} {h : Holder} {kind : MemberKind} {m : Member}

theorem MemberKind.Fits.agree (hk : kind.Fits Γ s h) (hΔ : Γ.Agrees Δ s) : kind.Fits Δ s h where
  own p hp := ⟨(hk.own p hp).1, (hΔ.holder p (hk.own p hp).1).trans (hk.own p hp).2⟩
  shared c hc := by
    obtain ⟨hthere, hborrows⟩ := hk.shared c hc
    rw [hΔ.holder _ hthere]
    exact ⟨hthere, hborrows⟩
  scripts script hscript := by
    obtain ⟨hthere, hscripts⟩ := hk.scripts script hscript
    rw [hΔ.holder _ hthere, hΔ.shares]
    exact ⟨hthere, hscripts⟩

theorem MemberId.Fits.agree {id : MemberId} (hid : id.Fits Γ s h) (hΔ : Γ.Agrees Δ s) :
    id.Fits Δ s h := by
  cases id with
  | made n => exact ⟨hid.1, (hΔ.holder _ hid.1).trans hid.2⟩
  | kept o which => exact hid
  | row => exact hid

theorem Member.Fits.agree (hm : m.Fits Γ s h) (hΔ : Γ.Agrees Δ s) : m.Fits Δ s h :=
  ⟨hm.kind.agree hΔ, hm.id.agree hΔ, hm.owner⟩

theorem Member.Genuine.agree (hm : m.Genuine Γ s) (hΔ : Γ.Agrees Δ s) : m.Genuine Δ s := by
  cases hm with
  | own h => exact .own (h.agree hΔ)
  | alike hΓ h hm ho => exact .alike (hΔ.shares ▸ hΓ) (h.agree hΔ) hm ho

theorem Member.Template.agree (hm : m.Template Γ s) (hΔ : Γ.Agrees Δ s) : m.Template Δ s :=
  ⟨hm.fits.imp (·.agree hΔ) (·.agree hΔ), hm.detached⟩

theorem Holder.Admits.agree (hm : h.Admits Γ s m) (hΔ : Γ.Agrees Δ s) : h.Admits Δ s m := by
  cases h with
  | template => exact Member.Fits.agree hm hΔ
  | shared => exact hm
  | base o => exact ⟨hm.1.agree hΔ, hm.2⟩
  | owned owner =>
    rw [Admits, hΔ.strays]
    exact ⟨hm.1.agree hΔ, hm.2⟩

end

/-! ## Stores that respect a ledger -/

namespace Store

/-- The members in the value have parts of their own. -/
def Vouches (Γ : Ledger) (s : Store) (v : Value) : Prop := ∀ m ∈ v.members, m.Genuine Γ s

/-- The store respects the ledger. -/
structure Sound (Γ : Ledger) (s : Store) : Prop where
  cells : ∀ c, s.Vouches Γ (s.cell c)
  shelf : ∀ v ∈ s.shelf, s.Vouches Γ v
  lists : ∀ l, ∀ m ∈ (s.list l).members, (Γ (.list l)).Admits Γ s m
  levels : ∀ l, ∀ m ∈ (s.list l).members, ∃ levels, s.Grounded levels m
  types : ∀ entry ∈ s.types, ∀ m ∈ entry.2.members, m.Template Γ s
  objects : ∀ o state, s.object? o = some state →
    (s.Has (.cell state.base) ∧ Γ (.cell state.base) = .base o) ∧
      s.Has (.list state.members) ∧ Γ (.list state.members) = .base o
  /-- Templates of scripts never run. -/
  scripts : ∀ i block, (s.script i).blocks.template = some block → block = ⟨(s.script i).text, 0⟩

variable {Γ : Ledger} {s t : Store}

theorem Vouches.onward {v : Value} (hv : s.Vouches Γ v) (ht : s.Onward t) : t.Vouches Γ v :=
  fun m hm => (hv m hm).onward ht

namespace Sound

theorem grounded {h : Holder} {m : Member} (hs : s.Sound Γ) (hm : m.kind.Fits Γ s h) :
    ∃ levels, s.Grounded levels m :=
  ⟨s.lists.size + 1, fun p hp => (hm.own p hp).1, fun l _ nested hnested =>
    have ⟨_, hlevels⟩ := hs.levels l nested hnested
    hlevels.bounded⟩

/-- All that a member has is there, at every level. -/
theorem has_of_spans {h : Holder} {m : Member} {p : Part} (hs : s.Sound Γ) (hm : m.Fits Γ s h)
    (hp : s.Spans m p) : s.Has p := by
  induction hp generalizing h with
  | @own m p hp =>
    rcases List.mem_append.mp hp with hserial | hkind
    · have hid := hm.id
      cases hm' : m.id with
      | made n =>
        obtain rfl : p = .serial n := by simpa [Member.serial?, hm'] using hserial
        rw [hm'] at hid
        exact hid.1
      | _ => simp [Member.serial?, hm'] at hserial
    · exact (hm.kind.own p hkind).1
  | @nested m nested l p hl hnested _ ih =>
    obtain ⟨h, hfits⟩ := (hs.lists l nested hnested).exists_fits
    exact ih hfits

/-- What counts of a ledger is what it says of the parts that are there. -/
theorem agree {Δ : Ledger} (hs : s.Sound Γ) (hΔ : Γ.Agrees Δ s) : s.Sound Δ where
  cells c m hm := (hs.cells c m hm).agree hΔ
  shelf v hv m hm := (hs.shelf v hv m hm).agree hΔ
  lists l m hm := by
    rw [hΔ.holder _ (has_of_mem_list hm)]
    exact (hs.lists l m hm).agree hΔ
  levels := hs.levels
  types entry hentry m hm := (hs.types entry hentry m hm).agree hΔ
  objects o state ho := by
    obtain ⟨⟨hcell, hbase⟩, hlist, howned⟩ := hs.objects o state ho
    exact ⟨⟨hcell, (hΔ.holder _ hcell).trans hbase⟩, hlist, (hΔ.holder _ hlist).trans howned⟩
  scripts := hs.scripts

/-! ## Single writes -/

/-- What a later store has new is sound, and the rest is as it was. -/
theorem later (hs : s.Sound Γ) (ht : s.Onward t)
    (hcells : ∀ c, t.cell c = s.cell c ∨ t.Vouches Γ (t.cell c))
    (hshelf : ∀ v ∈ t.shelf, v ∈ s.shelf ∨ t.Vouches Γ v)
    (hlists : ∀ l, ∀ m ∈ (t.list l).members, m ∈ (s.list l).members ∨
      (Γ (.list l)).Admits Γ t m)
    (hlevels : ∀ l, ∀ m ∈ (t.list l).members, ∃ levels, t.Grounded levels m)
    (htypes : t.types = s.types)
    (hobjects : ∀ o state, t.object? o = some state → (∃ old, s.object? o = some old ∧
      old.base = state.base ∧ old.members = state.members) ∨
        (t.Has (.cell state.base) ∧ Γ (.cell state.base) = .base o) ∧
          t.Has (.list state.members) ∧ Γ (.list state.members) = .base o)
    (hscripts : ∀ i block, (t.script i).blocks.template = some block →
      t.script i = s.script i ∨ block = ⟨(t.script i).text, 0⟩) : t.Sound Γ where
  cells c := by
    rcases hcells c with hsame | hnew
    · rw [hsame]
      exact (hs.cells c).onward ht
    · exact hnew
  shelf v hv := (hshelf v hv).elim (fun hold => (hs.shelf v hold).onward ht) id
  lists l m hm := (hlists l m hm).elim (fun hold => (hs.lists l m hold).onward ht) id
  levels := hlevels
  types entry hentry m hm := (hs.types entry (htypes ▸ hentry) m hm).onward ht
  objects o state ho := by
    rcases hobjects o state ho with ⟨old, hold, hsame, hmembers⟩ | hnew
    · obtain ⟨⟨hcell, hbase⟩, hlist, howned⟩ := hs.objects o old hold
      rw [hsame] at hcell hbase
      rw [hmembers] at hlist howned
      exact ⟨⟨ht.has hcell, hbase⟩, ht.has hlist, howned⟩
    · exact hnew
  scripts i block hblock := by
    rcases hscripts i block hblock with hsame | hnew
    · rw [hsame] at hblock ⊢
      exact hs.scripts i block hblock
    · exact hnew

end Sound

end Store

end DynamicMembers
