import DynamicMembers.Proofs.World.Commands

/-! # Calls from outside

A call looks something up, reads, writes or invokes with what is held, and what it returns
is held from then on (`World.Call`). With a modest environment a call does nothing but
deeds, so what deeds respect is respected by calls (`World.Sound.calls`), and whatever is
reached by calls is reachable.
-/
namespace DynamicMembers

namespace World

/-- The operation is called, and what it returns is held. -/
def call {ε α : Type} (w : World) (x : Run ε α) (got : α → List Member) : World :=
  w.gain x.run fun outcome => (returned outcome).flatMap got

/-- A call of an operation on a view or on a member, or a deed: members are made, copied, marked,
added and removed by deeds. -/
inductive Call (sharing : Bool) (env : Environment) : World → World → Prop
  | deed {w w' : World} (h : Deed sharing w w') : Call sharing env w w'
  | get {w : World} {v : View} (hv : w.Sees v) (name : String) :
      Call sharing env w (w.call (liftM (v.get? env.adapter name) : Run MemberError (Option Member))
        (·.toList))
  | first {w : World} {v : View} (hv : w.Sees v) (p : String → Bool) :
      Call sharing env w (w.call (liftM (v.first? env.adapter p) : Run MemberError (Option Member))
        (·.toList))
  | matching {w : World} {v : View} (hv : w.Sees v) (pattern : String) (types : TypeMask)
      (options : MatchOptions) :
      Call sharing env w (w.call (v.matchingText env.adapter pattern types options) id)
  | resolve {w : World} {m : Member} (hm : m ∈ w.members) (reference : String) :
      Call sharing env w (w.call (m.resolve env.adapter reference) ([·]))
  | value {w : World} {m : Member} (hm : m ∈ w.members) :
      Call sharing env w (w.call (m.value env) Value.members)
  | setValue {w : World} {m : Member} {v : Value} (hm : m ∈ w.members) (hv : w.Knows v) :
      Call sharing env w (w.call (m.setValue env v) fun _ => [])
  | invoke {w : World} {m : Member} {args : List Value} (hm : m ∈ w.members)
      (hints : InvocationHints) (hargs : ∀ v ∈ args, w.Knows v) :
      Call sharing env w (w.call (m.invokeWith env hints args) Value.members)
  | invokeSet {w : World} {m : Member} {v : Value} {args : List Value} (hm : m ∈ w.members)
      (hv : w.Knows v) (hargs : ∀ v ∈ args, w.Knows v) :
      Call sharing env w (w.call (m.invokeSet env v args) fun _ => [])

abbrev Calls (sharing : Bool) (env : Environment) : World → World → Prop :=
  Relation.ReflTransGen (Call sharing env)

/-- The second world has the same store, and all that the first holds is held in it. -/
structure Covers (w v : World) : Prop where
  store : v.store = w.store
  members : w.members ⊆ v.members
  kinds : w.kinds ⊆ v.kinds
  cells : w.cells ⊆ v.cells
  scripts : w.scripts ⊆ v.scripts

variable {sharing : Bool} {Γ : Ledger} {w w' v : World} {env : Environment}

theorem Deed.kinds_cells_scripts (h : Deed sharing w w') :
    w.kinds ⊆ w'.kinds ∧ w.cells ⊆ w'.cells ∧ w.scripts ⊆ w'.scripts := by
  have hrefl {α : Type} (l : List α) : l ⊆ l := List.Subset.refl l
  cases h with
  | keep => exact ⟨List.subset_cons_of_subset _ (List.subset_cons_self _ _), hrefl _, hrefl _⟩
  | share => exact ⟨hrefl _, List.subset_cons_self _ _, hrefl _⟩
  | write => exact ⟨hrefl _, hrefl _, List.subset_cons_self _ _⟩
  | group => exact ⟨List.subset_cons_self _ _, hrefl _, hrefl _⟩
  | _ => exact ⟨hrefl _, hrefl _, hrefl _⟩

theorem Deeds.kinds_cells_scripts (h : Deeds sharing w w') :
    w.kinds ⊆ w'.kinds ∧ w.cells ⊆ w'.cells ∧ w.scripts ⊆ w'.scripts := by
  induction h with
  | refl => exact ⟨List.Subset.refl _, List.Subset.refl _, List.Subset.refl _⟩
  | tail _ hlast ih =>
    obtain ⟨hkinds, hcells, hscripts⟩ := hlast.kinds_cells_scripts
    exact ⟨List.Subset.trans ih.1 hkinds, List.Subset.trans ih.2.1 hcells,
      List.Subset.trans ih.2.2 hscripts⟩

theorem Does.covers {ε α : Type} {x : Run ε α} {got : α → List Member} (h : w.Does sharing x got) :
    ∃ v, Deeds sharing w v ∧ (w.call x got).Covers v := by
  obtain ⟨v, hv, hstore, hgot⟩ := h
  obtain ⟨hkinds, hcells, hscripts⟩ := Deeds.kinds_cells_scripts hv
  refine ⟨v, hv, hstore, fun m hm => ?_, hkinds, hcells, hscripts⟩
  rcases List.mem_append.mp hm with hnew | hold
  · obtain ⟨a, ha, hm⟩ := List.mem_flatMap.mp hnew
    refine hgot a ?_ m hm
    cases houtcome : (x.run.run w.store).1 with
    | ok b =>
      rw [houtcome] at ha
      rw [List.mem_singleton.mp ha]
    | error failure =>
      rw [houtcome] at ha
      cases ha
  · exact Deeds.members_subset hv hold

theorem Call.deeds (henv : env.Modest sharing) (h : Call sharing env w w') :
    ∃ v, Deeds sharing w v ∧ w'.Covers v := by
  cases h with
  | deed h =>
    exact ⟨_, .single h, rfl, List.Subset.refl _, List.Subset.refl _, List.Subset.refl _,
      List.Subset.refl _⟩
  | get hv name => exact (does_get? env.adapter hv name).covers
  | first hv p => exact (does_first? env.adapter hv p).covers
  | matching hv pattern types options =>
    exact (does_matchingText env.adapter hv pattern types options).covers
  | @resolve m hm reference => exact (does_resolve env.adapter m reference).covers
  | value hm => exact (does_value henv hm).covers
  | setValue hm hv => exact (does_setValue henv hm hv).covers
  | invoke hm hints hargs => exact (does_invokeWith henv hints hargs).covers
  | invokeSet hm hv hargs => exact (does_invokeSet henv hm hv hargs).covers

/-! ## What calls respect -/

theorem Sound.covered (hv : v.Sound Γ) (h : w.Covers v) : w.Sound Γ where
  store := h.store ▸ hv.store
  members m hm := h.store ▸ hv.members m (h.members hm)
  kinds kind hk := h.store ▸ hv.kinds kind (h.kinds hk)
  cells c hc := h.store ▸ hv.cells c (h.cells hc)
  scripts i hi := h.store ▸ hv.scripts i (h.scripts hi)

theorem Sound.call (henv : env.Modest sharing) (hw : w.Sound Γ) (hΓ : Γ.Tolerates sharing)
    (h : Call sharing env w w') : ∃ Δ, Continues Γ w Δ w' := by
  obtain ⟨v, hdeeds, hcovers⟩ := h.deeds henv
  obtain ⟨Δ, hagrees, honward, hkeeps, hsound⟩ := hw.deeds hΓ hdeeds
  rw [hcovers.store] at honward hkeeps
  exact ⟨Δ, hagrees, honward, hkeeps, hsound.covered hcovers⟩

theorem Sound.calls (henv : env.Modest sharing) (hw : w.Sound Γ) (hΓ : Γ.Tolerates sharing)
    (h : Calls sharing env w w') : ∃ Δ, Continues Γ w Δ w' :=
  hw.along (Sound.call henv) hΓ h

theorem Calls.retains (henv : env.Modest sharing) (h : Calls sharing env w w') :
    w.store.Retains w'.store := by
  induction h with
  | refl => exact Store.Coherent.refl _
  | tail _ hlast ih =>
    obtain ⟨v, hdeeds, hcovers⟩ := hlast.deeds henv
    have hretains := Deeds.retains hdeeds
    rw [hcovers.store] at hretains
    exact Store.Coherent.trans ih hretains

theorem Call.members_subset (h : Call sharing env w w') : w.members ⊆ w'.members := by
  cases h with
  | deed h => exact h.members_subset
  | _ => exact List.subset_append_right _ _

/-! ## Worlds that can be reached -/

/-- A change, or a call in some environment. -/
inductive Act : World → World → Prop
  | change {w w' : World} (h : Change w w') : Act w w'
  | call {w w' : World} {env : Environment} (henv : env.Modest true) (h : Call true env w w') :
      Act w w'

abbrev Acts : World → World → Prop := Relation.ReflTransGen Act

/-- Can the world be reached from one in which nothing has been done? What an adapter starts with
has no members in it. -/
def Reachable (w : World) : Prop :=
  ∃ shelf : Array Value, (∀ v ∈ shelf, v.members = []) ∧ Acts (initial shelf) w

theorem acts_of_changes (h : Changes w w') : Acts w w' :=
  h.lift id fun _ _ => .change

/-- What is done in a world that can be reached leads to one that can be reached. -/
theorem Reachable.acts (hw : w.Reachable) (h : Acts w w') : w'.Reachable := by
  obtain ⟨shelf, hshelf, hbefore⟩ := hw
  exact ⟨shelf, hshelf, hbefore.trans h⟩

theorem Acts.members_subset (h : Acts w w') : w.members ⊆ w'.members := by
  induction h with
  | refl => exact List.Subset.refl _
  | tail _ hlast ih =>
    refine List.Subset.trans ih ?_
    cases hlast with
    | change h => exact Changes.members_subset (.single h)
    | call _ h => exact h.members_subset

theorem Sound.acts (hw : w.Sound Γ) (hΓ : Γ.Tolerates true) (h : Acts w w') :
    ∃ Δ, Continues Γ w Δ w' := by
  refine hw.along (fun hw hΓ h => ?_) hΓ h
  cases h with
  | change h => exact hw.change h (hΓ.allows _ _)
  | call henv h => exact hw.call henv hΓ h

/-- What is true where nothing has been done, and is preserved by changes, is true in every world
that can be reached. A call does nothing but deeds, and holds no more afterwards than these. -/
theorem Reachable.induction {P : World → Prop} (hw : w.Reachable)
    (hinitial : ∀ {shelf}, (∀ v ∈ shelf, v.members = []) → P (initial shelf))
    (hchange : ∀ {w w'}, w.Reachable → P w → Change w w' → P w')
    (hcovered : ∀ {w v}, w.Covers v → P v → P w) : P w := by
  obtain ⟨shelf, hshelf, hacts⟩ := hw
  induction hacts with
  | refl => exact hinitial hshelf
  | @tail w w' h hlast ih =>
    have hw : w.Reachable := ⟨shelf, hshelf, h⟩
    cases hlast with
    | change h => exact hchange hw ih h
    | call henv h =>
      obtain ⟨v, hdeeds, hcovers⟩ := h.deeds henv
      refine hcovered hcovers ?_
      clear hcovers
      suffices hreached : v.Reachable ∧ P v from hreached.2
      induction hdeeds with
      | refl => exact ⟨hw, ih⟩
      | tail _ hdeed ih =>
        exact ⟨ih.1.acts (.single (.change (.deed hdeed))), hchange ih.1 ih.2 (.deed hdeed)⟩

/-- Whatever has been done, there is a ledger that is respected. -/
theorem Reachable.sound (hw : w.Reachable) : ∃ Γ, w.Sound Γ ∧ Γ.Tolerates true := by
  obtain ⟨shelf, hshelf, h⟩ := hw
  let Γ : Ledger := ⟨fun _ => .shared, True, fun _ => True⟩
  have hΓ : Γ.Tolerates true := ⟨fun _ => trivial, fun _ _ => trivial⟩
  obtain ⟨Δ, hΔ⟩ := (sound_initial hshelf Γ).acts hΓ h
  exact ⟨Δ, hΔ.sound, hΓ.agree hΔ.agrees⟩

theorem Act.steps (h : Act w w') : Store.Steps w.store w'.store := by
  cases h with
  | change h => exact h.steps
  | call henv h =>
    obtain ⟨v, hdeeds, hcovers⟩ := h.deeds henv
    rw [← hcovers.store]
    exact hdeeds.lift' World.store fun _ _ => Deed.steps

/-- What holds of every reachable store holds of the store of a reachable world. -/
theorem Reachable.store (h : w.Reachable) : w.store.Reachable := by
  obtain ⟨shelf, -, hacts⟩ := h
  exact ⟨shelf, hacts.lift' World.store fun _ _ => Act.steps⟩

/-! ## An example -/

def looseSize : Member := ⟨.made 0, "Size", .initial, none, .note ⟨0⟩⟩

def looseGroup : Member := ⟨.made 1, "Group", .initial, none, .memberSet (.list ⟨0⟩) false⟩

/-- The note has been made. -/
def sized : World :=
  let w := initial #[]
  let w := { w with
    store := w.store.after (Store.addCell (.int 1))
    kinds := .note ⟨w.store.cells.size⟩ :: .captured ⟨w.store.cells.size⟩ :: w.kinds }
  w.gain (Member.define "Size" (.note ⟨0⟩)).run returned

/-- The member set has been made, with the note in it. -/
def grouped : World :=
  let w := { sized with
    store := sized.store.after (Store.addList ⟨[("Size", looseSize)], 0⟩)
    kinds := .memberSet (.list ⟨sized.store.lists.size⟩) false :: sized.kinds }
  w.gain (Member.define "Group" (.memberSet (.list ⟨0⟩) false)).run returned

def shapes : World :=
  let w := grouped.withStore (grouped.store.after (Store.declare "Shape" looseGroup).run)
  let w := w.withStore (w.store.after (Store.wrapAs .null ["Shape"]))
  w.withStore (w.store.after (Store.wrapAs .null ["Shape"]))

theorem deeds_sized : Deeds sharing (initial #[]) sized :=
  .tail (.single (.keep (by simp [Knows, Value.members])))
    (.define "Size" (.made (by decide +kernel) (by decide +kernel) (by decide +kernel)))

theorem deeds_grouped : Deeds sharing sized grouped := by
  have hsize : ∀ m ∈ [looseSize], m ∈ sized.members := by decide +kernel
  exact .tail (.single (.group hsize rfl false))
    (.define "Group" (.made (by decide +kernel) (by decide +kernel) (by decide +kernel)))

theorem reachable_shapes : shapes.Reachable := by
  have hwrap {w : World} : Change w (w.withStore (w.store.after (Store.wrapAs .null ["Shape"]))) :=
    .deed (.wrap (by simp [Knows, Value.members]) ["Shape"])
  have hgroup : looseGroup ∈ grouped.members := by decide +kernel
  exact ⟨#[], by simp, acts_of_changes <| (changes_of_deeds (deeds_sized.trans deeds_grouped)).trans
    (.tail (.tail (.single (.declare hgroup "Shape")) hwrap) hwrap)⟩

end World

end DynamicMembers
