import DynamicMembers.Proofs.World.Calls

/-! # Declarations are isolated from objects

What documents declare has parts of its own: identities, cells and lists at every level,
and scripts that run on copies of their blocks only. An object shows copies of it. So
whatever is called on what objects show, the declarations stay as they were loaded, no
member that is held shares a part with them or with a member of another object, and their
scripts start afresh each time (`World.Configured.isolates`).
-/
namespace DynamicMembers

/-! ## What is declared -/

namespace Store

/-- The second member is the first, or nested in it at some level. -/
inductive Includes (s : Store) : Member → Member → Prop
  | self (m : Member) : Includes s m m
  | nested {m nested inner : Member} {l : ListId} (hl : m.kind.list? = some l)
      (hnested : nested ∈ (s.list l).members) (h : Includes s nested inner) : Includes s m inner

def IsDeclared (s : Store) (template : Member) : Prop :=
  ∃ entry ∈ s.types, template ∈ entry.2.members

/-- The script is one of a declared member, or of a member nested in one. -/
def DeclaresScript (s : Store) (i : ScriptId) : Prop :=
  ∃ template inner policy, s.IsDeclared template ∧ s.Includes template inner ∧
    (i, policy) ∈ inner.kind.scripts

end Store

/-- A run of the script begins with the block that the text has just been compiled to, unless the
engine refuses the text. Then nothing is run. -/
def ScriptId.StartsAfresh (env : Environment) (s : Store) (i : ScriptId) (text : String)
    (policy : RunPolicy) (owner : Option ObjectId) (args : List Value) : Prop :=
  (∃ fault, env.compiles text = .error fault ∧
    (i.run env owner args policy).run.run s = (.error fault, s)) ∨
  ∃ remaining outcome called, remaining.template = some ⟨text, 0⟩ ∧
    (env.evaluate text ⟨owner, args, (⟨text, 0⟩ : Block).ran.runs, policy.mode⟩).run.run
      (s.begun i remaining policy.mode) = (outcome, called) ∧
    (i.run env owner args policy).run.run s = (outcome.mapError .ofFailure, called)

namespace World

/-- Documents have been loaded into a model, and calls have been made. Views give no one what a
member is made of, so nothing is made of it. -/
inductive Configured : World → Prop
  | initial {shelf : Array Value} (h : ∀ v ∈ shelf, v.members = []) : Configured (initial shelf)
  | load {w : World} (hw : Configured w) (env : Environment) (text : String) :
      Configured (w.withStore (w.store.after (env.loadTypes text).run))
  | call {w w' : World} {env : Environment} (hw : Configured w) (henv : env.Modest false)
      (h : Call false env w w') : Configured w'

/-- The second world comes after the first, and what the first declares is isolated in it. -/
structure Isolates (w w' : World) : Prop where
  types : w'.store.types = w.store.types
  /-- At every level, notes have their values and member sets their members. -/
  content : w.store.Keeps (fun p => ∃ template, w.store.IsDeclared template ∧
    w.store.Spans template p) w'.store
  /-- Nothing that is held has a part of a declaration, at whatever level. -/
  apart : ∀ m ∈ w'.members, ∀ template, w'.store.IsDeclared template →
    ∀ p, w'.store.Spans m p → ¬ w'.store.Spans template p
  /-- What belongs to different objects has different parts, at every level if they are there. -/
  disjoint : ∀ m ∈ w'.members, ∀ other ∈ w'.members, m.owner ≠ other.owner →
    (∀ p ∈ m.own, p ∉ other.own) ∧
    ((∃ o ∈ m.owner, w'.store.isAlive o = true) → (∃ o ∈ other.owner, w'.store.isAlive o = true) →
      ∀ p, w'.store.Spans m p → ¬ w'.store.Spans other p)
  /-- Whoever runs a declared script runs it afresh. -/
  afresh : ∀ m, (m ∈ w'.members ∨ ∃ template, w'.store.IsDeclared template ∧
      w'.store.Includes template m) → ∀ i policy, (i, policy) ∈ m.kind.scripts →
    w.store.DeclaresScript i → policy.onCopy = true ∧ ∀ env owner args,
      i.StartsAfresh env w'.store (w.store.script i).text policy owner args

end World

/-! ## What a ledger says of parts at every level -/

/-- No one has anything in common with others. -/
structure Ledger.Strict (Γ : Ledger) : Prop where
  shares : ¬ Γ.shares
  strays : ∀ m, ¬ Γ.strays m

section

variable {Γ : Ledger} {s : Store} {m inner : Member} {h : Holder} {p : Part}

theorem Member.Fits.holder_eq (hm : m.Fits Γ s h) (hp : p ∈ m.own) : Γ p = h := by
  rcases List.mem_append.mp hp with hserial | hkind
  · have hid := hm.id
    cases hm' : m.id with
    | made n =>
      obtain rfl : p = .serial n := by simpa [Member.serial?, hm'] using hserial
      rw [hm'] at hid
      exact hid.2
    | _ => simp [Member.serial?, hm'] at hserial
  · exact (hm.kind.own p hkind).2

namespace Ledger.Strict

theorem tolerates (hΓ : Γ.Strict) : Γ.Tolerates false :=
  ⟨nofun, fun hshares => absurd hshares hΓ.shares⟩

theorem agree {Δ : Ledger} (hΓ : Γ.Strict) (hΔ : Γ.Agrees Δ s) : Δ.Strict :=
  ⟨hΔ.shares ▸ hΓ.shares, hΔ.strays ▸ hΓ.strays⟩

end Ledger.Strict

namespace Store.Sound

theorem admits_nested {nested : Member} {l : ListId} (hs : s.Sound Γ) (hm : m.Fits Γ s h)
    (hl : m.kind.list? = some l) (hnested : nested ∈ (s.list l).members) :
    h.Admits Γ s nested := by
  have hadmits := hs.lists l nested hnested
  rwa [(hm.kind.own (.list l) (MemberKind.list_mem_own.mpr hl)).2] at hadmits

/-- What a member has when lists have changed it had before, or it is that of a member which is new
in a list that the member has. -/
theorem spans_cases {t : Store} {R : ListId → Member → Prop} (hs : s.Sound Γ)
    (hm : m.Fits Γ s h) (hlists : ∀ l, s.Has (.list l) → ∀ nested ∈ (t.list l).members,
      nested ∈ (s.list l).members ∨ R l nested)
    (hp : t.Spans m p) : s.Spans m p ∨
      ∃ l nested, R l nested ∧ s.Spans m (.list l) ∧ t.Spans nested p := by
  induction hp generalizing h with
  | own hp => exact .inl (.own hp)
  | @nested m nested l p hl hnested hp ih =>
    have hown : Part.list l ∈ m.kind.own := MemberKind.list_mem_own.mpr hl
    rcases hlists l (hm.kind.own _ hown).1 nested hnested with hold | hnew
    · obtain ⟨_, hfits⟩ := (hs.admits_nested hm hl hold).exists_fits
      exact (ih hfits).imp (.nested hl hold) fun ⟨k, inner, hnew, hk, hp⟩ =>
        ⟨k, inner, hnew, .nested hl hold hk, hp⟩
    · exact .inr ⟨l, nested, hnew, .own (Member.mem_own_of_kind hown), hp⟩

theorem fits_of_includes (hs : s.Sound Γ) (hm : m.Fits Γ s .template)
    (hinner : s.Includes m inner) : inner.Fits Γ s .template := by
  induction hinner with
  | self => exact hm
  | nested hl hnested _ ih => exact ih (hs.admits_nested hm hl hnested)

/-- All that is declared is the declarations', at every level. -/
theorem template_of_spans (hs : s.Sound Γ) (hm : m.Fits Γ s .template) (hp : s.Spans m p) :
    Γ p = .template := by
  induction hp with
  | own hp => exact hm.holder_eq hp
  | nested hl hnested _ ih => exact ih (hs.admits_nested hm hl hnested)

theorem owned_of_spans (hs : s.Sound Γ) (hm : m.Genuine Γ s) (hp : s.Spans m p) :
    ∃ owner, Γ p = .owned owner := by
  induction hp with
  | own hp =>
    obtain ⟨owner, hfits⟩ := hm.exists_owner
    exact ⟨owner, hfits.holder_eq hp⟩
  | nested hl hnested _ ih =>
    obtain ⟨owner, hfits⟩ := hm.exists_owner
    exact ih ((hs.admits_nested hfits hl hnested).genuine nofun)

/-- All that an object has is the object's, at every level. -/
theorem owner_of_spans {o : ObjectId} (hs : s.Sound Γ) (hΓ : Γ.Strict) (hm : m.Genuine Γ s)
    (ho : m.owner = some o) (halive : s.isAlive o = true) (hp : s.Spans m p) :
    Γ p = .owned (some o) := by
  induction hp with
  | own hp => rw [(hm.fits hΓ.shares).holder_eq hp, ho]
  | @nested m nested l p hl hnested _ ih =>
    obtain ⟨hnestedOwn, howner⟩ := hs.admits_nested (hm.fits hΓ.shares) hl hnested
    exact ih hnestedOwn (((howner o ho).2 halive).resolve_right (hΓ.strays nested))

/-- What belongs to an owner, or to none, has no part of a declaration. -/
theorem apart {template : Member} (hs : s.Sound Γ) (hm : m.Genuine Γ s)
    (ht : template.Fits Γ s .template) (hp : s.Spans m p) : ¬ s.Spans template p := by
  intro hshared
  obtain ⟨owner, howned⟩ := hs.owned_of_spans hm hp
  cases howned.symm.trans (hs.template_of_spans ht hshared)

/-- What belongs to different objects that are there has different parts. -/
theorem disjoint {other : Member} (hs : s.Sound Γ) (hΓ : Γ.Strict) (hm : m.Genuine Γ s)
    (hother : other.Genuine Γ s) (howner : m.owner ≠ other.owner)
    (hlives : ∃ o ∈ m.owner, s.isAlive o = true)
    (hlives' : ∃ o ∈ other.owner, s.isAlive o = true) (hp : s.Spans m p) : ¬ s.Spans other p := by
  intro hshared
  obtain ⟨o, ho, halive⟩ := hlives
  obtain ⟨o', ho', halive'⟩ := hlives'
  have hsame : Holder.owned (some o) = .owned (some o') :=
    (hs.owner_of_spans hΓ hm ho halive hp).symm.trans
      (hs.owner_of_spans hΓ hother ho' halive' hshared)
  exact howner (ho.trans ((Holder.owned.inj hsame).trans ho'.symm))

theorem template_of_declaresScript {i : ScriptId} (hs : s.Sound Γ) (hisolated : s.Isolated Γ)
    (h : s.DeclaresScript i) : s.Has (.script i) ∧ Γ (.script i) = .template := by
  obtain ⟨template, inner, policy, ⟨entry, hentry, ht⟩, hinner, hi⟩ := h
  obtain ⟨hthere, -, hholder⟩ :=
    (hs.fits_of_includes (hisolated entry hentry template ht) hinner).kind.scripts (i, policy) hi
  exact ⟨hthere, hholder rfl⟩

/-- A run on a copy of the template that has never run. -/
theorem startsAfresh (hs : s.Sound Γ) (env : Environment) (i : ScriptId) {policy : RunPolicy}
    (hcopy : policy.onCopy = true) (owner : Option ObjectId) (args : List Value) :
    i.StartsAfresh env s (s.script i).text policy owner args := by
  rcases ScriptId.prepare_cases env i s with ⟨fault, -, hfault, hprepare⟩ |
    ⟨asked, template, blocks, hprepares, hprepare⟩
  · exact .inl ⟨fault, hfault, run_then_of_error hprepare⟩
  · obtain ⟨rfl, htemplate⟩ := hs.pristine hprepares
    let turn : Blocks.Turn Block := ⟨⟨(s.script i).text, 0⟩, false⟩
    have hout : blocks.checkOut turn.block policy.onCopy = (turn.block, turn.isShared, blocks) := by
      rw [hcopy]
      rfl
    exact .inr ⟨blocks, _, _, htemplate, rfl, ScriptId.run_of_prepared hprepare hout rfl⟩

end Store.Sound

end

namespace World

variable {Γ : Ledger} {w w' : World} {env : Environment}

/-- What documents declare has parts of its own. -/
theorem Configured.sound (hw : w.Configured) :
    ∃ Γ, w.Sound Γ ∧ Γ.Strict ∧ w.store.Isolated Γ := by
  induction hw with
  | initial h =>
    exact ⟨⟨fun _ => .shared, False, fun _ => False⟩, sound_initial h _, ⟨id, fun _ => id⟩,
      fun entry hentry => absurd hentry List.not_mem_nil⟩
  | load hw env text ih =>
    obtain ⟨Γ, hsound, hΓ, hisolated⟩ := ih
    obtain ⟨Δ, hΔ, hkept⟩ := hsound.load env text
    exact ⟨Δ, hΔ.sound, hΓ.agree hΔ.agrees, hkept hisolated⟩
  | call hw henv h ih =>
    obtain ⟨Γ, hsound, hΓ, hisolated⟩ := ih
    obtain ⟨Δ, hΔ⟩ := hsound.call henv hΓ.tolerates h
    have hretains := Calls.retains henv (.single h)
    exact ⟨Δ, hΔ.sound, hΓ.agree hΔ.agrees,
      (hisolated.agree hΔ.agrees).onward hΔ.onward hretains.types⟩

theorem Configured.isolates (hw : w.Configured) (henv : env.Modest false)
    (h : Calls false env w w') : w.Isolates w' := by
  obtain ⟨Γ, hsound, hΓ, hisolated⟩ := hw.sound
  obtain ⟨Δ, hΔ⟩ := hsound.calls henv hΓ.tolerates h
  have hstrict := hΓ.agree hΔ.agrees
  have hretains := Calls.retains henv h
  have hisolated' : w'.store.Isolated Δ :=
    (hisolated.agree hΔ.agrees).onward hΔ.onward hretains.types
  have hheld : ∀ m ∈ w'.members, m.Genuine Δ w'.store := hΔ.sound.members
  have hdeclared : ∀ template, w'.store.IsDeclared template →
      template.Fits Δ w'.store .template := fun template ⟨entry, hentry, ht⟩ =>
    hisolated' entry hentry template ht
  refine ⟨hretains.types, hΔ.keeps.weaken ?_, fun m hm template ht p hp =>
    hΔ.sound.store.apart (hheld m hm) (hdeclared template ht) hp,
    fun m hm other hother howner => ⟨fun p hp hshared => ?_, fun hlives hlives' p hp =>
      hΔ.sound.store.disjoint hstrict (hheld m hm) (hheld other hother) howner hlives hlives' hp⟩,
    fun m hm i policy hi hscript => ?_⟩
  · rintro p ⟨template, ⟨entry, hentry, hm⟩, hp⟩
    exact hsound.store.template_of_spans (hisolated entry hentry template hm) hp
  · have hholder {m : Member} (hm : m ∈ w'.members) (hp : p ∈ m.own) : Δ p = .owned m.owner :=
      ((hheld m hm).fits hstrict.shares).holder_eq hp
    exact howner (Holder.owned.inj ((hholder hm hp).symm.trans (hholder hother hshared)))
  · obtain ⟨hthere, hΓi⟩ := hsound.store.template_of_declaresScript hisolated hscript
    have hΔi : Δ (.script i) = .template := (hΔ.agrees.holder _ hthere).trans hΓi
    have hfits : ∃ h, m.Fits Δ w'.store h := by
      rcases hm with hm | ⟨template, ht, hinner⟩
      · exact ⟨_, (hheld m hm).fits hstrict.shares⟩
      · exact ⟨_, hΔ.sound.store.fits_of_includes (hdeclared template ht) hinner⟩
    obtain ⟨h, hfits⟩ := hfits
    have hcopy : policy.onCopy = true :=
      ((hfits.kind.scripts (i, policy) hi).2.1 hΔi).resolve_right hstrict.shares
    refine ⟨hcopy, fun env owner args => ?_⟩
    rw [← hretains.texts i hthere]
    exact hΔ.sound.store.startsAfresh env i hcopy owner args

/-- A type with a member set that has a note in it, and with a property that counts its runs. -/
def countedShape : String := String.intercalate "\n" [
  "[[types]]", "name = \"Shape\"",
  "[[types.members]]", "kind = \"MemberSet\"", "name = \"Group\"",
  "[[types.members.members]]", "kind = \"NoteProperty\"", "name = \"Size\"", "value = 1",
  "[[types.members]]", "kind = \"ScriptProperty\"", "name = \"Runs\"", "getter = \"runs\""]

def countedShapes : World :=
  (initial #[]).withStore
    ((initial #[]).store.after ((CommandHost.bare.environment 1).loadTypes countedShape).run)

def countedObject : World :=
  countedShapes.withStore (countedShapes.store.after (Store.wrapAs .null ["Shape"]))

def countedShown : World :=
  countedObject.call (((View.ofObject ⟨0⟩).withMask .all).matchingText .bag "*" .all .everything) id

theorem Configured.isolates_counted :
    (countedShapes.Configured ∧ (CommandHost.bare.environment 1).Modest false ∧
      Calls false (CommandHost.bare.environment 1) countedShapes countedShown) ∧
    countedShown.members.map (·.name) = ["PSBase", "PSAdapted", "PSExtended", "PSObject",
      "PSTypeNames", "Group", "Runs", "ToString", "Equals"] ∧
    countedShapes.Isolates countedShown := by
  have hnames : countedShown.members.map (·.name) = ["PSBase", "PSAdapted", "PSExtended",
      "PSObject", "PSTypeNames", "Group", "Runs", "ToString", "Equals"] := by
    decide +kernel
  have hconfigured : countedShapes.Configured :=
    .load (.initial (by simp)) (CommandHost.bare.environment 1) countedShape
  have hmodest : (CommandHost.bare.environment 1).Modest false :=
    CommandHost.bare.environment_modest Adapter.honest_bag nofun 1
  have hwrap : Call false (CommandHost.bare.environment 1) countedShapes countedObject :=
    .deed (.wrap (by simp [Knows, Value.members]) ["Shape"])
  have hobject : 0 < countedObject.store.objects.size := by
    rw [countedObject, World.withStore, Store.size_objects_wrapAs]
    omega
  have hshown : Call false (CommandHost.bare.environment 1) countedObject countedShown :=
    .matching (.object hobject .all) "*" .all .everything
  have hcalls : Calls false (CommandHost.bare.environment 1) countedShapes countedShown :=
    .tail (.single hwrap) hshown
  exact ⟨⟨hconfigured, hmodest, hcalls⟩, hnames, hconfigured.isolates hmodest hcalls⟩

end World

end DynamicMembers
