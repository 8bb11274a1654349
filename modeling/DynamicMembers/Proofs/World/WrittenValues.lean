import DynamicMembers.Proofs.Alias.Arrivals
import DynamicMembers.Proofs.World.Separation
import Mathlib.Data.List.Pairwise

/-! # Values that are written

Every spot of a reachable world has its own place: what a note keeps, what a variable keeps and
what the base value of an object has are in different cells, whoever holds the note or the
variable (`World.Sound.suits_of_hasSpot`). So a value that is written under a name of an object
is read under every name that leads to the same spot, and the values at all other spots are as
they were (`World.Reachable.writesThrough`).
-/
namespace DynamicMembers

/-! ## Spots of a world -/

/-- Who may have the cell of a spot: a note keeps its value for the holder of the note, variables
share theirs, and entries are those of the base value of an object. -/
def Spot.Suits : Spot → Holder → Prop
  | .note _, .template | .note _, .owned _ | .slot _, .shared | .entry _ _, .base _ => True
  | _, _ => False

namespace World

/-- What members there are in the world: those that are held or can be made, and those that are in
a list, in a value or declared. -/
inductive HasKind (w : World) : MemberKind → Prop
  | held {m : Member} (hm : m ∈ w.members) : HasKind w m.kind
  | offered {kind : MemberKind} (hk : kind ∈ w.kinds) : HasKind w kind
  | listed {l : ListId} {m : Member} (hm : m ∈ (w.store.list l).members) : HasKind w m.kind
  | declared {entry : String × MemberList} {m : Member} (hentry : entry ∈ w.store.types)
      (hm : m ∈ entry.2.members) : HasKind w m.kind
  | kept {c : CellId} {m : Member} (hm : m ∈ (w.store.cell c).members) : HasKind w m.kind
  | shelved {v : Value} {m : Member} (hv : v ∈ w.store.shelf) (hm : m ∈ v.members) :
      HasKind w m.kind

/-- Where there is a value in the world: in a note, in a variable, or in the base value of an
object. -/
inductive HasSpot (w : World) : Spot → Prop
  | note {c : CellId} (h : w.HasKind (.note c)) : HasSpot w (.note c)
  | slot {target : Variable} (h : w.HasKind (.slot target)) : HasSpot w (.slot target.cell)
  | held {c : CellId} (hc : c ∈ w.cells) : HasSpot w (.slot c)
  | entry {o : ObjectId} {state : ObjectState} (ho : w.store.object? o = some state)
      (key : String) : HasSpot w (.entry state.base key)

/-- What has come of a value that was written under a name of the object which leads to the spot. -/
structure WritesThrough (env : Environment) (w : World) (o : ObjectId) (x : Sighting) (spot : Spot)
    (v : Value) (t : Store) : Prop where
  /-- Under every name that leads to the same spot the value is read: as it is, or converted if the
  name is that of an alias with a conversion, whatever the aliases behind it declare. There is an
  answer unless the conversion has none. -/
  rereads : ∀ name y other, w.store.LeadsTo env.adapter o name y → y.At w.store o other →
    other.Same spot → ∃ m u, ((View.ofObject o).get? env.adapter name).run t = (some m, u) ∧
      sameName m.name name = true ∧
      (m.value? env u).map (·.1) = m.rendering? (t.text? env.adapter) v
  content : spot.content? t = some v
  others : ∀ other, w.HasSpot other → ¬ other.Same spot →
    other.content? t = other.content? w.store
  /-- No other note of an object that is there has the cell. -/
  alone : ∀ c, spot = .note c → ∀ k state m inner, w.store.object? k = some state →
    w.store.isAlive k = true → m ∈ (w.store.list state.members).members →
    w.store.Includes m inner → inner.kind = .note c → k = o ∧ inner = x.member
  cells : ∀ c, c ≠ spot.cell → t.cell c = w.store.cell c
  /-- Lists, objects and declarations are as they were. -/
  rest : t = { w.store with cells := t.cells, made := t.made }
  keys : ∀ k, (t.baseValue k).keys? = (w.store.baseValue k).keys?
  shown : ∀ view : View, view.union env.adapter t = view.union env.adapter w.store ∧
    ∀ name, view.find? env.adapter t name = view.find? env.adapter w.store name

end World

/-! ## Every spot has its own place -/

section

variable {Γ : Ledger} {s t : Store} {h : Holder} {kind : MemberKind} {spot other : Spot} {v : Value}

namespace Spot

theorem same_of_suits (hspot : spot.Suits h) (hother : other.Suits h)
    (hcell : other.cell = spot.cell) : other.Same spot ∨ ∃ base key name,
      spot = .entry base key ∧ other = .entry base name ∧ sameName key name = false := by
  cases spot <;> cases other <;> cases h <;> simp only [Suits] at hspot hother
  · exact .inl hcell
  · exact .inl hcell
  · exact .inl hcell
  next base key other name o =>
    obtain rfl : other = base := hcell
    cases hname : sameName name key with
    | true => exact .inl ⟨rfl, hname⟩
    | false => exact .inr ⟨_, _, _, rfl, rfl, by rw [sameName_comm, hname]⟩

theorem content?_put_of_not_same (hhas : s.Has (.cell spot.cell))
    (hcontent : (spot.content? s).isSome) (hspot : spot.Suits (Γ (.cell spot.cell)))
    (hother : other.Suits (Γ (.cell other.cell))) (hdiffer : ¬ other.Same spot) (v : Value) :
    other.content? (spot.put s v) = other.content? s := by
  by_cases hcell : other.cell = spot.cell
  · rw [hcell] at hother
    rcases same_of_suits hspot hother hcell with hsame | ⟨base, key, name, rfl, rfl, hname⟩
    · exact absurd hsame hdiffer
    · exact content?_put_entry hhas hcontent hname v
  · exact content?_congr (cell_put_of_ne hcontent hcell v)

theorem keys?_put_base {o : ObjectId} {base : CellId} (hhas : s.Has (.cell spot.cell))
    (hcontent : (spot.content? s).isSome) (hspot : spot.Suits (Γ (.cell spot.cell)))
    (hbase : Γ (.cell base) = .base o) (v : Value) :
    ((spot.put s v).cell base = s.cell base) ∨ ∃ keys, (s.cell base).keys? = some keys ∧
      ((spot.put s v).cell base).keys? = some keys := by
  by_cases hcell : base = spot.cell
  · subst hcell
    rw [hbase] at hspot
    cases spot <;> simp only [Suits] at hspot
    exact .inr (keys?_put_entry hhas hcontent v)
  · exact .inl (cell_put_of_ne hcontent hcell v)

end Spot

namespace MemberKind.Fits

theorem suits_note {c : CellId} (hk : (MemberKind.note c).Fits Γ s h)
    (hholder : h = .template ∨ ∃ owner, h = .owned owner) :
    s.Has (.cell c) ∧ (Spot.note c).Suits (Γ (.cell c)) := by
  obtain ⟨hcell, rfl⟩ := hk.own (.cell c) (MemberKind.cell_mem_own.mpr rfl)
  refine ⟨hcell, ?_⟩
  rcases hholder with hholder | ⟨owner, hholder⟩ <;> rw [hholder] <;> trivial

theorem suits_slot {target : Variable} (hk : (MemberKind.slot target).Fits Γ s h) :
    s.Has (.cell target.cell) ∧ (Spot.slot target.cell).Suits (Γ (.cell target.cell)) := by
  obtain ⟨hcell, hborrows⟩ := hk.shared target.cell rfl
  refine ⟨hcell, ?_⟩
  cases hholder : Γ (.cell target.cell) with
  | shared => trivial
  | _ => rw [hholder] at hborrows; cases hborrows

end MemberKind.Fits

end

namespace World

variable {Γ : Ledger} {w : World} {o : ObjectId} {x : Sighting} {spot : Spot} {v : Value}

theorem Sound.fits_of_hasKind {kind : MemberKind} (hw : w.Sound Γ) (h : w.HasKind kind) :
    ∃ h, kind.Fits Γ w.store h ∧ (h = .template ∨ ∃ owner, h = .owned owner) := by
  have hgenuine {m : Member} (hm : m.Genuine Γ w.store) : ∃ h, m.kind.Fits Γ w.store h ∧
      (h = .template ∨ ∃ owner, h = .owned owner) :=
    have ⟨owner, hkind⟩ := hm.exists_kind
    ⟨_, hkind, .inr ⟨owner, rfl⟩⟩
  cases h with
  | held hm => exact hgenuine (hw.members _ hm)
  | offered hk => exact ⟨_, hw.kinds _ hk, .inr ⟨_, rfl⟩⟩
  | @listed l m hm =>
    have hadmits := hw.store.lists l m hm
    by_cases htemplate : Γ (.list l) = .template
    · rw [htemplate] at hadmits
      exact ⟨_, Member.Fits.kind hadmits, .inl rfl⟩
    · exact hgenuine (hadmits.genuine htemplate)
  | declared hentry hm =>
    rcases (hw.store.types _ hentry _ hm).fits with hfits | hm
    · exact ⟨_, hfits.kind, .inl rfl⟩
    · exact hgenuine hm
  | kept hm => exact hgenuine (hw.store.cells _ _ hm)
  | shelved hv hm => exact hgenuine (hw.store.shelf _ hv _ hm)

theorem Sound.suits_of_hasSpot (hw : w.Sound Γ) (h : w.HasSpot spot) :
    w.store.Has (.cell spot.cell) ∧ spot.Suits (Γ (.cell spot.cell)) := by
  cases h with
  | note hk =>
    obtain ⟨h, hfits, hholder⟩ := hw.fits_of_hasKind hk
    exact hfits.suits_note hholder
  | slot hk =>
    obtain ⟨h, hfits, -⟩ := hw.fits_of_hasKind hk
    exact hfits.suits_slot
  | held hc =>
    obtain ⟨hcell, hshared⟩ := hw.cells _ hc
    refine ⟨hcell, ?_⟩
    rw [Spot.cell, hshared]
    trivial
  | entry ho key =>
    obtain ⟨⟨hcell, hbase⟩, -⟩ := hw.store.objects _ _ ho
    refine ⟨hcell, ?_⟩
    rw [Spot.cell, hbase]
    trivial

/-- What is found of an object at a spot has the place that the spot has. -/
theorem Sound.suits_of_at {view : View} (hw : w.Sound Γ) (hx : x.Fits Γ w.store view)
    (h : x.At w.store o spot) :
    w.store.Has (.cell spot.cell) ∧ spot.Suits (Γ (.cell spot.cell)) := by
  unfold Sighting.Fits at hx
  rcases Member.spot?_cases h.kind with ⟨c, hm, rfl⟩ | ⟨target, hm, rfl⟩ | ⟨_, base, key, -, rfl⟩
  · rw [h.stored c rfl] at hx
    obtain ⟨_, hkind⟩ := Member.Genuine.exists_kind hx
    rw [hm] at hkind
    exact hkind.suits_note (.inr ⟨_, rfl⟩)
  · suffices hkind : ∃ h, x.member.kind.Fits Γ w.store h by
      obtain ⟨_, hkind⟩ := hkind
      rw [hm] at hkind
      exact hkind.suits_slot
    split at hx
    next which horigin =>
      obtain ⟨k, -, hreserved⟩ := hx
      rw [hreserved] at hm
      cases which <;> cases hm
    next =>
      obtain ⟨_, hkind⟩ := Member.Genuine.exists_kind hx
      exact ⟨_, hkind⟩
    next => exact hx
    next => exact hx
  · obtain ⟨⟨state, ho, rfl⟩, -⟩ := h.entry base key rfl
    exact hw.suits_of_hasSpot (.entry ho key)

/-! ## One value written -/

section

variable {t : Store} (hw : w.Sound Γ) (hhas : w.store.Has (.cell spot.cell))
  (hsuits : spot.Suits (Γ (.cell spot.cell))) (hcontent : (spot.content? w.store).isSome)
  (ht : (spot.put w.store v).OnlyCounts t)
include hw hhas hsuits hcontent ht

omit hw hhas hsuits in
theorem rest_of_put : t = { w.store with cells := t.cells, made := t.made } := by
  obtain ⟨written, hput⟩ := Spot.put_eq_setCell hcontent v
  rw [ht.rest, hput]
  rfl

/-- A base value has the same rows for the bag adapter. -/
theorem Sound.base_of_put {k : ObjectId} {state : ObjectState}
    (hk : w.store.object? k = some state) :
    (t.cell state.base).keys? = (w.store.cell state.base).keys? ∧
      Bag.rows (t.cell state.base) = Bag.rows (w.store.cell state.base) := by
  rw [ht.cell]
  rcases Spot.keys?_put_base hhas hcontent hsuits (hw.store.objects k state hk).1.2 v with
    hsame | ⟨keys, hbefore, hafter⟩
  · rw [hsame]
    exact ⟨rfl, rfl⟩
  · exact ⟨hafter.trans hbefore.symm, Bag.rows_congr hbefore hafter⟩

/-- So a value that is written leaves what objects show as it is. -/
theorem Sound.showsAlike_of_put (k : ObjectId) : Store.ShowsAlike .bag k w.store t := by
  have hrest := rest_of_put hcontent ht
  refine ⟨by rw [hrest], by rw [hrest], fun state hk => ⟨by rw [hrest]; rfl, ?_⟩⟩
  exact (hw.base_of_put hhas hsuits hcontent ht hk).2

theorem Sound.keys_of_put (k : ObjectId) :
    (t.baseValue k).keys? = (w.store.baseValue k).keys? := by
  rw [Store.baseValue, Store.baseValue, (hw.showsAlike_of_put hhas hsuits hcontent ht k).object?]
  cases hk : w.store.object? k with
  | none => rfl
  | some state => exact (hw.base_of_put hhas hsuits hcontent ht hk).1

theorem Sound.shown_of_put (view : View) : view.union .bag t = view.union .bag w.store ∧
    ∀ name, view.find? .bag t name = view.find? .bag w.store name := by
  have hrest := rest_of_put hcontent ht
  have halike := hw.showsAlike_of_put hhas hsuits hcontent ht
  have hstored : view.storedLayer? t = view.storedLayer? w.store :=
    View.storedLayer?_congr (by rw [hrest]) fun l _ => by rw [hrest]; rfl
  refine ⟨?_, View.find?_congr hstored fun k _ => halike k⟩
  rw [View.union, View.union, View.layers, View.layers, hstored,
    View.sourceLayers_congr fun k _ => halike k]

end

/-- What has been written is read under every name that leads to the spot. -/
theorem value?_of_put {env : Environment} {t : Store} {name : String} {y : Sighting}
    {other : Spot} (henv : env.adapter = .bag) (hs : w.store.Reachable)
    (halive : w.store.isAlive o = true) (howns : w.store.OwnsShown env.adapter o)
    (hcontent : (spot.content? w.store).isSome) (ht : (spot.put w.store v).OnlyCounts t)
    (hafter : spot.content? t = some v) (halike : Store.ShowsAlike env.adapter o w.store t)
    (hleads : w.store.LeadsTo env.adapter o name y) (hy : y.At w.store o other)
    (hsame : other.Same spot) :
    ∃ m u, ((View.ofObject o).get? env.adapter name).run t = (some m, u) ∧
      sameName m.name name = true ∧
      (m.value? env u).map (·.1) = m.rendering? (t.text? env.adapter) v := by
  have hreached : t.Reachable := by
    obtain ⟨written, hput⟩ := Spot.put_eq_setCell hcontent v
    rw [hput] at ht
    exact hs.steps (.head (.setCell spot.cell written) ht.steps)
  have hfinds := View.find?_ofObject_congr halike
  have hthere := (hsame.content?_eq t).trans hafter
  refine Store.value?_of_leadsTo henv hreached ?_ (fun n z hz => howns n z ?_)
    ((Store.leadsTo_congr hfinds).mpr hleads) (hy.later halike.objects ?_) hthere
  · rwa [Store.isAlive_congr halike.objects]
  · rwa [← hfinds n]
  · rw [hthere]
    rfl

/-- A note of an object has its cell for itself. -/
theorem Reachable.alone_of_note (hw : w.Reachable) {state : ObjectState} {note : Member}
    {c : CellId} (ho : w.store.object? o = some state)
    (hnote : note ∈ (w.store.list state.members).members) (hc : note.kind = .note c) {k : ObjectId}
    {other : ObjectState} {m inner : Member} (hk : w.store.object? k = some other)
    (hm : m ∈ (w.store.list other.members).members) (hinner : w.store.Includes m inner)
    (hinnerKind : inner.kind = .note c) : k = o ∧ inner = note := by
  have hmine : w.store.Spans note (.cell c) := Store.spans_cell (by rw [hc]; rfl)
  have htheirs : w.store.Spans m (.cell c) :=
    hinner.spans (Store.spans_cell (by rw [hinnerKind]; rfl))
  obtain rfl : k = o := by
    by_contra hdiffer
    exact hw.separate.across k o other state hk ho hdiffer m hm note hnote _ htheirs hmine
  obtain rfl : other = state := Option.some.inj (hk.symm.trans ho)
  obtain rfl : m = note := by
    by_contra hdiffer
    have hsymm : Std.Symm fun m other => w.store.Apart m other := ⟨fun _ _ => Store.Apart.symm⟩
    exact (hw.separate.within _ _ ho).forall hm hnote hdiffer _ htheirs hmine
  refine ⟨rfl, ?_⟩
  cases hinner with
  | self => rfl
  | nested hl => rw [hc] at hl; cases hl

/-- A note that is found at a spot is in the list of the object. -/
theorem exists_listed_of_at {adapter : Adapter} {c : CellId}
    (hdraws : (View.ofObject o).Draws adapter w.store x) (hx : x.At w.store o (.note c)) :
    x.member.kind = .note c ∧ ∃ state, w.store.object? o = some state ∧
      x.member ∈ (w.store.list state.members).members := by
  have hstored := hx.stored c rfl
  constructor
  · rcases Member.spot?_cases hx.kind with ⟨_, hkind, hc⟩ | ⟨_, _, hc⟩ | ⟨_, _, _, _, hc⟩ <;>
      cases hc
    exact hkind
  · cases hdraws with
    | stored hl hmine =>
      obtain ⟨state, ho, rfl⟩ := Option.map_eq_some_iff.mp hl
      exact ⟨state, ho, hmine⟩
    | inherited howner ho hmine =>
      cases howner
      exact ⟨_, ho, hmine⟩
    | _ => cases hstored

/-- Reads see what has been written by way of any alias, and only the target has changed. -/
theorem Reachable.writesThrough {env : Environment} (henv : env.adapter = .bag) (hw : w.Reachable)
    (halive : w.store.isAlive o = true) {name : String} (h : w.store.LeadsTo env.adapter o name x)
    (hx : x.At w.store o spot) {m : Member} {u t : Store}
    (hget : ((View.ofObject o).get? env.adapter name).run w.store = (some m, u))
    (hset : (m.setValue env v).run.run u = (.ok (), t)) : w.WritesThrough env o x spot v t := by
  obtain ⟨Γ, hsound, -⟩ := hw.sound
  have hsees : w.Sees (View.ofObject o) := .object (Store.index_lt_of_isAlive halive) .all
  have howns : w.store.OwnsShown env.adapter o := fun _ _ hy =>
    hsound.ownerFor_ofObject halive (View.draws_of_find? hy)
  have ⟨_, _, hfind, _⟩ := h
  have hdraws := View.draws_of_find? hfind
  have hcontent := hx.content?_isSome
  obtain ⟨hhas, hsuits⟩ := hsound.suits_of_at (hsees.fits hsound hdraws) hx
  have ht := Store.onlyCounts_of_run_setValue henv hw.store halive howns h hx hget hset
  have hafter : spot.content? t = some v :=
    (ht.content? spot).trans (Spot.content?_put_self hhas hcontent v)
  constructor
  case rereads =>
    intro name y other hleads hy hsame
    exact value?_of_put henv hw.store halive howns hcontent ht hafter
      (henv ▸ hsound.showsAlike_of_put hhas hsuits hcontent ht o) hleads hy hsame
  case content => exact hafter
  case others =>
    intro other hother hdiffer
    obtain ⟨-, hsuits'⟩ := hsound.suits_of_hasSpot hother
    rw [ht.content?, Spot.content?_put_of_not_same hhas hcontent hsuits hsuits' hdiffer]
  case alone =>
    rintro c rfl k other m inner hk - hm hinner hkind
    obtain ⟨hnote, state, ho, hmine⟩ := exists_listed_of_at hdraws hx
    exact hw.alone_of_note ho hmine hnote hk hm hinner hkind
  case cells =>
    intro c hc
    rw [ht.cell, Spot.cell_put_of_ne hcontent hc]
  case rest => exact rest_of_put hcontent ht
  case keys => exact hsound.keys_of_put hhas hsuits hcontent ht
  case shown =>
    rw [henv]
    exact hsound.shown_of_put hhas hsuits hcontent ht

/-! ## An example -/

def withAlias (w : World) (name reference : String) (conversion : Option ValueType) : World :=
  let w' := w.gain (Member.define name (.aliasOf reference conversion)).run returned
  w'.gain ((View.ofObject ⟨0⟩).add
    ⟨.made w.store.made, name, .initial, none, .aliasOf reference conversion⟩ false).run returned

def linked : World :=
  (sized.withStore (sized.store.after (Store.wrapAs (.map [("Key", .int 1), ("Size", .int 2)])
    []))).withAlias "Link" "KEY" none

/-- It has an alias of that alias, too, which makes a text of what is read. -/
def linkedTwice : World := linked.withAlias "Text" "link" (some .string)

def suppliedKey : Sighting :=
  ⟨⟨.row, "Key", .initial, none, .adapted ⟨.model, ⟨1⟩, .bag (.entry "Key")⟩⟩, .supplied⟩

def linkedText : Member :=
  ⟨.made 4, "Text", .initial, some ⟨0⟩, .aliasOf "link" (some .string)⟩

theorem deeds_withAlias {w : World} {name reference : String} {conversion : Option ValueType}
    (ho : 0 < w.store.objects.size)
    (hname : definitionFault? name (.aliasOf reference conversion) = none) :
    Deeds true w (w.withAlias name reference conversion) := by
  let m : Member := ⟨.made w.store.made, name, .initial, none, .aliasOf reference conversion⟩
  have hdefine : (Member.define name (.aliasOf reference conversion)).run.run w.store =
      (.ok m, w.store.after Store.nextMemberId) := by
    rw [Member.define, hname]
    rfl
  let w' := w.gain (Member.define name (.aliasOf reference conversion)).run returned
  have hmade : Deed true w w' :=
    .define name (.made (absurd rfl) (by simp [MemberKind.sharedCell?])
      (by simp [MemberKind.scripts]))
  have hheld : m ∈ w'.members := by
    refine List.mem_append_left _ ?_
    rw [hdefine]
    exact List.mem_singleton_self m
  have ho' : (⟨0⟩ : ObjectId).index < w'.store.objects.size := by
    show 0 < (w.store.after (Member.define name _).run).objects.size
    rw [Store.after, hdefine]
    exact ho
  exact .tail (.single hmade) (.add (.object ho' .all) hheld false)

theorem reachable_linkedTwice : linkedTwice.Reachable := by
  have hwrapped : Deed true sized (sized.withStore (sized.store.after
      (Store.wrapAs (.map [("Key", .int 1), ("Size", .int 2)]) []))) :=
    .wrap (by simp [Knows, Value.members, Value.entryMembers]) []
  have hlinked : Deeds true _ linked := deeds_withAlias (by decide +kernel) (by decide +kernel)
  have hlinkedTwice : Deeds true linked linkedTwice :=
    deeds_withAlias (by decide +kernel) (by decide +kernel)
  exact ⟨#[], by simp, acts_of_changes <| changes_of_deeds <|
    ((deeds_sized.tail hwrapped).trans hlinked).trans hlinkedTwice⟩

def bagEnvironment : Environment := CommandHost.bare.environment 0

def keyWritten : Store :=
  linkedTwice.store.after (linkedText.setValue bagEnvironment (.int 7)).run

/-- What is written by way of both aliases is written to the entry of the map. -/
theorem Reachable.writesThrough_linkedTwice :
    bagEnvironment.adapter = .bag ∧ linkedTwice.Reachable ∧
    linkedTwice.store.isAlive ⟨0⟩ = true ∧
    linkedTwice.store.LeadsTo bagEnvironment.adapter ⟨0⟩ "text" suppliedKey ∧
    suppliedKey.At linkedTwice.store ⟨0⟩ (.entry ⟨1⟩ "Key") ∧
    ((View.ofObject ⟨0⟩).get? bagEnvironment.adapter "text").run linkedTwice.store =
      (some linkedText, linkedTwice.store) ∧
    (linkedText.setValue bagEnvironment (.int 7)).run.run linkedTwice.store =
      (.ok (), keyWritten) ∧
    linkedTwice.WritesThrough bagEnvironment ⟨0⟩ suppliedKey (.entry ⟨1⟩ "Key") (.int 7)
      keyWritten := by
  have halive : linkedTwice.store.isAlive ⟨0⟩ = true := by decide +kernel
  have hfind : (View.ofObject ⟨0⟩).find? bagEnvironment.adapter linkedTwice.store "text" =
      some ⟨linkedText, .stored⟩ := by decide +kernel
  have hleads : linkedTwice.store.LeadsTo bagEnvironment.adapter ⟨0⟩ "text" suppliedKey :=
    ⟨"KEY", .head (b := "link") (by decide +kernel) (.single (by decide +kernel)),
      by decide +kernel, rfl⟩
  have hat : suppliedKey.At linkedTwice.store ⟨0⟩ (.entry ⟨1⟩ "Key") :=
    ⟨rfl, nofun, by rintro _ _ ⟨⟩; exact ⟨⟨_, rfl, rfl⟩, rfl⟩⟩
  have hget := View.run_get?_of_find? hfind rfl
  have hset : (linkedText.setValue bagEnvironment (.int 7)).run.run linkedTwice.store =
      (.ok (), keyWritten) := Prod.ext rfl rfl
  exact ⟨rfl, reachable_linkedTwice, halive, hleads, hat, hget, hset,
    reachable_linkedTwice.writesThrough rfl halive hleads hat hget hset⟩

end World

end DynamicMembers
