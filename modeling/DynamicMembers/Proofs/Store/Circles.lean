import DynamicMembers.Adapter.Bag
import DynamicMembers.Answering
import DynamicMembers.Proofs.Value.References
import DynamicMembers.Proofs.View.Sources
import Mathlib.Data.List.Perm.Subperm
import Mathlib.Logic.Relation

/-! # Values that contain themselves

An object looks like the value it wraps, and a note, a variable or an entry of a map like the value
it holds. So the text of a value leads from one object or member to the next, and what they show can
be written at any time: nothing keeps the way from coming back to where it has been. A value has a
text if and only if it does not lead into such a circle (`Store.rendersExactly`), and what converts
it to a text, or shows it in a failure, has an answer just as often.

The number of occurrences in the store bounds the way from above: on a way that is longer, one of
them comes twice.
-/
namespace DynamicMembers

/-! ## Values that adapters show -/

def AdapterState.references (state : AdapterState) : List Reference :=
  state.base.references ++ Value.itemReferences state.shelf.toList

namespace Adapter

/-- A property is not described without the text of this value. -/
def Shows (adapter : Adapter) (state : AdapterState) (data : AdapterData) (v : Value) : Prop :=
  ∀ write name, write v = none → adapter.describe write state data name = none

/-- An adapter describes a property by the texts of values that it keeps or finds in the base
value, and by nothing else that may be missing. -/
structure Describes (adapter : Adapter) : Prop where
  finds : ∀ {write other state data name text}, Value.Finds write other →
    adapter.describe write state data name = some text →
      adapter.describe other state data name = some text
  complete : ∀ {write state data} name,
    (∀ v, adapter.Shows state data v → (write v).isSome = true) →
      (adapter.describe write state data name).isSome = true
  within : ∀ {state data v}, adapter.Shows state data v → v.references ⊆ state.references

end Adapter

theorem NameMap.references_of_lookup {entries : NameMap Value} {key : String} {v : Value}
    (h : entries.lookup key = some v) : v.references ⊆ (Value.map entries).references := by
  obtain ⟨entry, hentry, rfl⟩ := exists_mem_of_lookup h
  exact fun r hr => Value.mem_entryReferences.mpr ⟨entry, hentry, hr⟩

namespace Bag

variable {state : AdapterState} {data : AdapterData} {v : Value}

theorem shows_iff : Adapter.bag.Shows state data v ↔ get state data = .ok v := by
  constructor
  · intro h
    cases hget : get state data with
    | error failure =>
      have hnone := h (fun _ => none) "" rfl
      simp [Adapter.bag, describe, hget] at hnone
    | ok w =>
      by_contra hne
      have hne : w ≠ v := fun heq => hne (congrArg Except.ok heq)
      classical
      have hnone := h (fun x => if x = v then none else some "") "" (if_pos rfl)
      simp [Adapter.bag, describe, hget, hne] at hnone
  · intro h write name hwrite
    simp [Adapter.bag, describe, h, hwrite]

theorem references_of_get (h : get state data = .ok v) :
    v.references ⊆ state.base.references := by
  obtain ⟨row, -, hget⟩ := exists_of_bind_eq_ok h
  split at hget
  next hbase =>
    split at hget
    next hlookup =>
      cases hget
      rw [hbase]
      exact NameMap.references_of_lookup hlookup
    next => cases hget
  next => cases hget; exact List.nil_subset _
  next => cases hget; exact List.nil_subset _
  next => cases hget

theorem describes : Adapter.bag.Describes where
  finds := by
    intro write other state data name text hfinds h
    simp only [Adapter.bag, describe] at h ⊢
    split at h
    next v _ =>
      obtain ⟨found, hfound, rfl⟩ := Option.map_eq_some_iff.mp h
      simp [hfinds v found hfound]
    next => exact h
  complete := by
    intro write state data name h
    simp only [Adapter.bag, describe]
    split
    next v hget => simpa using h v (shows_iff.mpr hget)
    next => rfl
  within h := List.Subset.trans (references_of_get (shows_iff.mp h)) (List.subset_append_left _ _)

end Bag

/-! ## Ways through the store -/

namespace Store

variable (adapter : Adapter) (s : Store)

/-- The text of the object or the member is made from that of the value. -/
inductive Shows : Reference → Value → Prop
  | base (o : ObjectId) : Shows (.object o) (s.baseValue o)
  | own {m : Member} {c : CellId} (h : m.kind.cell? = some c) : Shows (.member m) (s.cell c)
  | slot {m : Member} {target : Variable} (h : m.kind = .slot target) :
      Shows (.member m) (s.cell target.cell)
  | adapted {m : Member} {binding : Binding} {v : Value} (h : m.kind = .adapted binding)
      (hv : (binding.adapter.adapter adapter).Shows (s.adapterState binding) binding.data v) :
      Shows (.member m) v

def Mentions (r next : Reference) : Prop :=
  ∃ v, s.Shows adapter r v ∧ next ∈ v.references

def Circular (v : Value) : Prop :=
  ∃ r ∈ v.references, ∃ met, Relation.ReflTransGen (s.Mentions adapter) r met ∧
    Relation.TransGen (s.Mentions adapter) met met

variable {adapter s}

theorem isSome_valuedText {write : Value → Option String} {name : String} {v : Value} :
    (valuedText write name v).isSome = (write v).isSome :=
  Option.isSome_map

theorem describes_binding (h : adapter.Describes) (binding : Binding) :
    (binding.adapter.adapter adapter).Describes := by
  cases binding.adapter with
  | model => exact h
  | bag => exact Bag.describes

/-- An object or a member has a text if the values have one that it shows. -/
theorem isSome_referText_iff (h : adapter.Describes) (steps : ℕ) (r : Reference) :
    (s.referText adapter (steps + 1) r.value).isSome = true ↔ ∀ v, s.Shows adapter r v →
      (v.textWith (s.referText adapter steps)).isSome = true := by
  cases r with
  | object o =>
    constructor
    · intro htext v hv
      cases hv
      exact htext
    · exact fun hshown => hshown _ (.base o)
  | member m =>
    have hmember : s.referText adapter (steps + 1) (Reference.member m).value =
        s.memberText adapter (Value.textWith (s.referText adapter steps)) m := rfl
    rw [hmember, memberText]
    constructor
    · intro htext v hv
      cases hv with
      | own hcell =>
        cases hkind : m.kind <;> simp [hkind, MemberKind.cell?] at hcell htext
        all_goals
          subst hcell
          rwa [isSome_valuedText] at htext
      | slot hkind =>
        rw [hkind] at htext
        rwa [isSome_valuedText] at htext
      | adapted hkind hv =>
        rw [hkind] at htext
        by_contra hnone
        have hnone := Option.not_isSome_iff_eq_none.mp hnone
        have hmissing := hv _ m.name hnone
        simp [hmissing] at htext
    · intro hshown
      cases hkind : m.kind with
      | note c | captured c =>
        have hcell : m.kind.cell? = some c := by rw [hkind]; rfl
        exact isSome_valuedText.trans (hshown _ (.own hcell))
      | slot target => exact isSome_valuedText.trans (hshown _ (.slot hkind))
      | adapted binding =>
        exact (describes_binding h binding).complete m.name fun v hv => hshown v (.adapted hkind hv)
      | _ => rfl

/-- So it has one if it mentions nothing that has none. -/
theorem isSome_referText_succ (h : adapter.Describes) (steps : ℕ) (r : Reference) :
    (s.referText adapter (steps + 1) r.value).isSome = true ↔ ∀ next, s.Mentions adapter r next →
      (s.referText adapter steps next.value).isSome = true := by
  rw [isSome_referText_iff h]
  constructor
  · rintro htext next ⟨v, hv, hnext⟩
    exact (Value.isSome_textWith v).mp (htext v hv) next hnext
  · intro hnext v hv
    exact (Value.isSome_textWith v).mpr fun next hmem => hnext next ⟨v, hv, hmem⟩

theorem finds_valuedText {write other : Value → Option String} {name : String} {v : Value}
    {text : String} (hfinds : Value.Finds write other)
    (htext : valuedText write name v = some text) : valuedText other name v = some text := by
  obtain ⟨found, hfound, rfl⟩ := Option.map_eq_some_iff.mp htext
  exact Option.map_eq_some_iff.mpr ⟨found, hfinds v found hfound, rfl⟩

theorem finds_memberText {write other : Value → Option String} (h : adapter.Describes)
    (hfinds : Value.Finds write other) {m : Member} {text : String}
    (htext : s.memberText adapter write m = some text) :
    s.memberText adapter other m = some text := by
  unfold memberText at htext ⊢
  cases hkind : m.kind with
  | note c | captured c | slot target =>
    rw [hkind] at htext
    exact finds_valuedText hfinds htext
  | adapted binding =>
    rw [hkind] at htext
    exact (describes_binding h binding).finds hfinds htext
  | _ =>
    rw [hkind] at htext
    exact htext

/-- What is found in so many steps is found in more. -/
theorem finds_referText (h : adapter.Describes) {steps more : ℕ} (hle : steps ≤ more) :
    Value.Finds (s.referText adapter steps) (s.referText adapter more) := by
  suffices hsucc : ∀ steps, Value.Finds (s.referText adapter steps)
      (s.referText adapter (steps + 1)) by
    induction hle with
    | refl => exact fun _ _ ht => ht
    | step _ ih => exact fun r t ht => hsucc _ r t (ih r t ht)
  intro steps
  induction steps with
  | zero => exact fun r t ht => by cases ht
  | succ steps ih =>
    have hwrite : Value.Finds (Value.textWith (s.referText adapter steps))
        (Value.textWith (s.referText adapter (steps + 1))) :=
      fun v t ht => Value.textWith_mono ih ht
    intro r t ht
    cases r with
    | member m => exact finds_memberText h hwrite ht
    | _ => exact hwrite _ _ ht

/-! ## Circles -/

/-- Who leads into a circle has no text, however many steps are made. -/
theorem referText_of_circle (h : adapter.Describes) {met : Reference}
    (hcircle : Relation.TransGen (s.Mentions adapter) met met) (steps : ℕ) {r : Reference}
    (hr : Relation.ReflTransGen (s.Mentions adapter) r met) :
    s.referText adapter steps r.value = none := by
  induction steps generalizing r with
  | zero => rfl
  | succ steps ih =>
    obtain ⟨next, hnext, hmet⟩ : ∃ next, s.Mentions adapter r next ∧
        Relation.ReflTransGen (s.Mentions adapter) next met := by
      rcases hr.cases_head with rfl | hnext
      · exact Relation.TransGen.head'_iff.mp hcircle
      · exact hnext
    have hnone := ih hmet
    rw [← Option.not_isSome_iff_eq_none, isSome_referText_succ h]
    intro hall
    simpa [hnone] using hall next hnext

/-- Who has no text after so many steps is at the beginning of a way of that length. -/
theorem exists_way_of_none (h : adapter.Describes) (steps : ℕ) {r : Reference}
    (hr : s.referText adapter steps r.value = none) : ∃ way : List Reference,
      way.length = steps ∧ List.IsChain (s.Mentions adapter) (r :: way) := by
  induction steps generalizing r with
  | zero => exact ⟨[], rfl, .singleton r⟩
  | succ steps ih =>
    rw [← Option.not_isSome_iff_eq_none, isSome_referText_succ h] at hr
    obtain ⟨next, hnext⟩ := not_forall.mp hr
    obtain ⟨hnext, hnone⟩ := Classical.not_imp.mp hnext
    obtain ⟨way, hlength, hway⟩ := ih (Option.not_isSome_iff_eq_none.mp hnone)
    exact ⟨next :: way, by rw [List.length_cons, hlength], .cons_cons hnext hway⟩

def references (s : Store) : List Reference :=
  Value.itemReferences s.cells.toList ++ Value.itemReferences s.shelf.toList

theorem length_references (s : Store) : s.references.length = s.referenceCount := by
  rw [references, List.length_append, Value.length_itemReferences, Value.length_itemReferences]
  rfl

theorem references_cell (s : Store) (c : CellId) : (s.cell c).references ⊆ s.references := by
  intro r hr
  unfold cell at hr
  cases hcell : s.cells[c.index]? with
  | none =>
    rw [hcell] at hr
    cases hr
  | some v =>
    rw [hcell] at hr
    have hmem : v ∈ s.cells.toList := Array.mem_toList_iff.mpr (Array.mem_of_getElem? hcell)
    exact List.mem_append_left _ (Value.mem_itemReferences.mpr ⟨v, hmem, hr⟩)

theorem mem_references_of_mentions (h : adapter.Describes) {r next : Reference}
    (hr : s.Mentions adapter r next) : next ∈ s.references := by
  obtain ⟨v, hv, hnext⟩ := hr
  cases hv with
  | base o =>
    unfold baseValue at hnext
    split at hnext
    · exact s.references_cell _ hnext
    · cases hnext
  | own hcell => exact s.references_cell _ hnext
  | slot hkind => exact s.references_cell _ hnext
  | @adapted m binding v hkind hv =>
    rcases List.mem_append.mp ((describes_binding h binding).within hv hnext) with hbase | hshelf
    · exact s.references_cell _ hbase
    · exact List.mem_append_right _ hshelf

/-- A way that is longer than there are occurrences meets one of them twice. -/
theorem exists_circle_of_none (h : adapter.Describes) {r : Reference}
    (hr : s.referText adapter (s.referenceCount + 1) r.value = none) : ∃ met,
      Relation.ReflTransGen (s.Mentions adapter) r met ∧
        Relation.TransGen (s.Mentions adapter) met met := by
  obtain ⟨way, hlength, hway⟩ := exists_way_of_none h _ hr
  by_contra hnone
  have hpairwise : (r :: way).Pairwise (Relation.TransGen (s.Mentions adapter)) :=
    (hway.imp fun _ _ => Relation.TransGen.single).pairwise
  obtain ⟨hfirst, hrest⟩ := List.pairwise_cons.mp hpairwise
  have hnodup : way.Nodup := by
    refine hrest.imp_of_mem fun {met again} hmet _ hagain heq => ?_
    exact hnone ⟨met, (hfirst met hmet).to_reflTransGen, heq ▸ hagain⟩
  have hsubset : way ⊆ s.references := by
    intro next hnext
    obtain ⟨last, -, hlast⟩ := Relation.TransGen.tail'_iff.mp (hfirst next hnext)
    exact mem_references_of_mentions h hlast
  have hle := (List.subperm_of_subset hnodup hsubset).length_le
  rw [length_references, hlength] at hle
  omega

/-- A value has a text if it does not lead into a circle. -/
theorem isSome_text?_iff (h : adapter.Describes) {v : Value} :
    (s.text? adapter v).isSome = true ↔ ¬ s.Circular adapter v := by
  rw [text?, Value.isSome_textWith]
  constructor
  · rintro htext ⟨r, hr, met, hmet, hcircle⟩
    have hnone := referText_of_circle h hcircle (s.referenceCount + 1) hmet
    simpa [hnone] using htext r hr
  · intro hcircular r hr
    by_contra hnone
    obtain ⟨met, hmet, hcircle⟩ := exists_circle_of_none h (Option.not_isSome_iff_eq_none.mp hnone)
    exact hcircular ⟨r, hr, met, hmet, hcircle⟩

/-- The number of steps that are made is never what keeps a text from being found. -/
theorem text?_eq_some_iff (h : adapter.Describes) {v : Value} {text : String} :
    s.text? adapter v = some text ↔
      ∃ steps, v.textWith (s.referText adapter steps) = some text := by
  refine ⟨fun htext => ⟨_, htext⟩, fun ⟨steps, htext⟩ => ?_⟩
  have hcircular : ¬ s.Circular adapter v := by
    rintro ⟨r, hr, met, hmet, hcircle⟩
    have hsome := (Value.isSome_textWith v).mp (Option.isSome_of_eq_some htext) r hr
    simp [referText_of_circle h hcircle steps hmet] at hsome
  obtain ⟨found, hfound⟩ := Option.isSome_iff_exists.mp ((isSome_text?_iff h).mpr hcircular)
  have hmore (more : ℕ) (hle : more ≤ max steps (s.referenceCount + 1)) (t : String)
      (ht : v.textWith (s.referText adapter more) = some t) :
      v.textWith (s.referText adapter (max steps (s.referenceCount + 1))) = some t :=
    Value.textWith_mono (finds_referText h hle) ht
  have heq := (hmore _ (le_max_left _ _) text htext).symm.trans
    (hmore _ (le_max_right _ _) found hfound)
  rw [hfound, heq]

/-! ## Writes -/

def Clear (adapter : Adapter) (s : Store) : Prop :=
  ∀ r, ¬ Relation.TransGen (s.Mentions adapter) r r

/-- What the object or the member shows is found in the cell. -/
inductive Reads (s : Store) : Reference → CellId → Prop
  | base {o : ObjectId} {state : ObjectState} (h : s.object? o = some state) :
      Reads s (.object o) state.base
  | own {m : Member} {c : CellId} (h : m.kind.cell? = some c) : Reads s (.member m) c
  | slot {m : Member} {target : Variable} (h : m.kind = .slot target) :
      Reads s (.member m) target.cell
  | adapted {m : Member} {binding : Binding} (h : m.kind = .adapted binding) :
      Reads s (.member m) binding.base

variable {c : CellId} {v : Value} {r next : Reference}

/-- Who does not read the cell shows the same as before. -/
theorem shows_of_setCell (hr : ¬ s.Reads r c) {x : Value} (h : (s.setCell c v).Shows adapter r x) :
    s.Shows adapter r x := by
  have hcell {k : CellId} (hk : s.Reads r k) : (s.setCell c v).cell k = s.cell k :=
    cell_setCell_of_ne (by rintro rfl; exact hr hk) v
  cases h with
  | base o =>
    have hbase : (s.setCell c v).baseValue o = s.baseValue o := by
      have hobject : (s.setCell c v).object? o = s.object? o := rfl
      unfold baseValue
      rw [hobject]
      cases ho : s.object? o with
      | none => rfl
      | some state => exact hcell (.base ho)
    exact hbase ▸ .base o
  | own hkind =>
    rw [hcell (.own hkind)]
    exact .own hkind
  | slot hkind =>
    rw [hcell (.slot hkind)]
    exact .slot hkind
  | @adapted m binding x hkind hx =>
    have hstate : (s.setCell c v).adapterState binding = s.adapterState binding :=
      congrArg (AdapterState.mk s.shelf) (hcell (.adapted hkind))
    rw [hstate] at hx
    exact .adapted hkind hx

theorem mentions_of_setCell (hr : ¬ s.Reads r c) (h : (s.setCell c v).Mentions adapter r next) :
    s.Mentions adapter r next := by
  obtain ⟨x, hx, hnext⟩ := h
  exact ⟨x, shows_of_setCell hr hx, hnext⟩

theorem references_cell_setCell (s : Store) (c : CellId) (v : Value) :
    ((s.setCell c v).cell c).references ⊆ v.references := by
  by_cases hc : s.Has (.cell c)
  · rw [cell_setCell_self hc]
    exact List.Subset.refl _
  · have hindex : ¬ c.index < s.cells.size := hc
    have hnull : (s.setCell c v).cell c = .null := by simp [cell, setCell, hindex]
    rw [hnull]
    exact List.nil_subset _

theorem reads_unique {k : CellId} (h : s.Reads r k) (hc : s.Reads r c) : k = c := by
  cases h with
  | base ho =>
    cases hc with
    | base ho' =>
      rw [ho] at ho'
      cases ho'
      rfl
  | @own m k hkind =>
    cases hc with
    | own hkind' => exact Option.some.inj (hkind.symm.trans hkind')
    | slot hkind' | adapted hkind' => simp [hkind', MemberKind.cell?] at hkind
  | @slot m target hkind =>
    cases hc with
    | slot hkind' =>
      rw [hkind] at hkind'
      cases hkind'
      rfl
    | own hkind' => simp [hkind, MemberKind.cell?] at hkind'
    | adapted hkind' =>
      rw [hkind] at hkind'
      cases hkind'
  | @adapted m binding hkind =>
    cases hc with
    | adapted hkind' =>
      rw [hkind] at hkind'
      cases hkind'
      rfl
    | own hkind' => simp [hkind, MemberKind.cell?] at hkind'
    | slot hkind' =>
      rw [hkind] at hkind'
      cases hkind'

/-- What is mentioned is found in the cell that is read. -/
theorem exists_reads_of_mentions (h : s.Mentions .bag r next) :
    ∃ k, s.Reads r k ∧ next ∈ (s.cell k).references := by
  obtain ⟨x, hx, hnext⟩ := h
  cases hx with
  | base o =>
    unfold baseValue at hnext
    cases ho : s.object? o with
    | none =>
      rw [ho] at hnext
      cases hnext
    | some state =>
      rw [ho] at hnext
      exact ⟨_, .base ho, hnext⟩
  | own hkind => exact ⟨_, .own hkind, hnext⟩
  | slot hkind => exact ⟨_, .slot hkind, hnext⟩
  | @adapted m binding x hkind hx =>
    have hbag : binding.adapter.adapter .bag = .bag := by cases binding.adapter <;> rfl
    rw [hbag, Bag.shows_iff] at hx
    exact ⟨_, .adapted hkind, Bag.references_of_get hx hnext⟩

/-- Who reads the cell mentions nothing but what is written to it. -/
theorem mem_references_of_setCell (hr : s.Reads r c) (h : (s.setCell c v).Mentions .bag r next) :
    next ∈ v.references := by
  obtain ⟨k, hk, hnext⟩ := exists_reads_of_mentions h
  have hk : s.Reads r k := by
    cases hk with
    | base ho => exact .base ho
    | own hkind => exact .own hkind
    | slot hkind => exact .slot hkind
    | adapted hkind => exact .adapted hkind
  rw [reads_unique hk hr] at hnext
  exact references_cell_setCell s c v hnext

/-- A way after the write is one from before, up to the first who reads the cell. -/
theorem exists_reads_of_way {last : Reference} (hlast : s.Reads last c)
    (hway : Relation.ReflTransGen ((s.setCell c v).Mentions adapter) r last) :
    ∃ met, Relation.ReflTransGen (s.Mentions adapter) r met ∧ s.Reads met c := by
  induction hway using Relation.ReflTransGen.head_induction_on with
  | refl => exact ⟨last, .refl, hlast⟩
  | @head first next hfirst _ ih =>
    by_cases hreads : s.Reads first c
    · exact ⟨first, .refl, hreads⟩
    · obtain ⟨met, hmet, hc⟩ := ih
      exact ⟨met, .head (mentions_of_setCell hreads hfirst) hmet, hc⟩

/-- If no one on the way reads the cell, all of it is from before. -/
theorem way_or_exists_reads {last : Reference}
    (hway : Relation.TransGen ((s.setCell c v).Mentions adapter) r last) :
    Relation.TransGen (s.Mentions adapter) r last ∨ ∃ met, s.Reads met c ∧
      Relation.ReflTransGen ((s.setCell c v).Mentions adapter) r met ∧
      Relation.TransGen ((s.setCell c v).Mentions adapter) met last := by
  induction hway using Relation.TransGen.head_induction_on with
  | @single first hfirst =>
    by_cases hreads : s.Reads first c
    · exact .inr ⟨first, hreads, .refl, .single hfirst⟩
    · exact .inl (.single (mentions_of_setCell hreads hfirst))
  | @head first next hfirst hrest ih =>
    by_cases hreads : s.Reads first c
    · exact .inr ⟨first, hreads, .refl, .head hfirst hrest⟩
    · rcases ih with hbefore | ⟨met, hc, hmet, hlast⟩
      · exact .inl (.head (mentions_of_setCell hreads hfirst) hbefore)
      · exact .inr ⟨met, hc, .head hfirst hmet, hlast⟩

/-- A write of a value that does not lead to who reads the cell brings no circle. -/
theorem Clear.setCell (hs : s.Clear .bag) (hv : ∀ r ∈ v.references, ∀ met,
    Relation.ReflTransGen (s.Mentions .bag) r met → ¬ s.Reads met c) :
    (s.setCell c v).Clear .bag := by
  intro r hcircle
  rcases way_or_exists_reads hcircle with hbefore | ⟨met, hc, hmet, hback⟩
  · exact hs r hbefore
  · obtain ⟨next, hnext, hrest⟩ := Relation.TransGen.head'_iff.mp hback
    obtain ⟨again, hagain, hreads⟩ := exists_reads_of_way hc (hrest.trans hmet)
    exact hv next (mem_references_of_setCell hc hnext) again hagain hreads

end Store

end DynamicMembers
