import DynamicMembers.Access
import DynamicMembers.Proofs.Store.DeepCopies
import DynamicMembers.Proofs.Store.Reachable

/-! # Where values are kept

There are three places for a value that members read and write: the cell of a note, the cell
of a variable, and an entry of a map in the cell of a base value (`Spot`). What is written at
a spot is read there, and at no other spot is anything else read than before: spots in
different cells have nothing to do with each other, and in one map it is the names of the
entries that tell them apart.

Handing out a member that keeps nothing for itself changes how many members have been made,
and nothing else (`Store.OnlyCounts`).
-/
namespace DynamicMembers

/-! ## Entries of maps -/

def Value.keys? : Value → Option (List String)
  | .map entries => some (entries.map (·.1))
  | _ => none

/-- Which members the bag adapter supplies for a map depends on the names of its entries. -/
theorem Bag.rows_congr {v w : Value} {keys : List String} (hv : v.keys? = some keys)
    (hw : w.keys? = some keys) : Bag.rows w = Bag.rows v := by
  cases v <;> cases w <;> simp only [Value.keys?, reduceCtorEq, Option.some.injEq] at hv hw
  next entries others =>
    have hrows (entries : List (String × Value)) :
        entries.map (fun entry => AdapterRow.mk entry.1 .property (.bag (.entry entry.1))) =
          (entries.map (·.1)).map fun key => ⟨key, .property, .bag (.entry key)⟩ := by
      rw [List.map_map]
      rfl
    show others.map _ ++ _ = entries.map _ ++ _
    rw [hrows, hrows, hv, hw]

/-! ## Stores that differ in their count -/

namespace Store

/-- More members may have been made, but nothing else is new. -/
structure OnlyCounts (s t : Store) : Prop where
  made : s.made ≤ t.made
  rest : t = { s with made := t.made }

variable {s t u : Store}

instance : Coherent OnlyCounts where
  refl _ := ⟨Nat.le_refl _, rfl⟩
  trans {s t u} h hrest := by
    refine ⟨Nat.le_trans h.made hrest.made, ?_⟩
    have hsame := hrest.rest
    rw [h.rest] at hsame
    exact hsame

namespace OnlyCounts

theorem nextMemberId : Within OnlyCounts Store.nextMemberId := fun _ => ⟨Nat.le_succ _, rfl⟩

theorem cell (h : s.OnlyCounts t) : t.cell = s.cell := by rw [h.rest]; rfl

theorem objects (h : s.OnlyCounts t) : t.objects = s.objects := by rw [h.rest]

theorem setCell (h : s.OnlyCounts t) (c : CellId) (v : Value) :
    (s.setCell c v).OnlyCounts (t.setCell c v) := by
  refine ⟨h.made, ?_⟩
  rw [h.rest]
  rfl

theorem steps (h : s.OnlyCounts t) : Steps s t := by
  have hcounted (n : Nat) : Steps s { s with made := s.made + n } := by
    induction n with
    | zero => exact .refl
    | succ n ih => exact ih.tail (.nextMemberId (s := { s with made := s.made + n }))
  obtain ⟨n, hn⟩ := Nat.exists_eq_add_of_le h.made
  rw [h.rest, hn]
  exact hcounted n

theorem referText (h : s.OnlyCounts t) (adapter : Adapter) (steps : Nat) (v : Value) :
    t.referText adapter steps v = s.referText adapter steps v := by
  have hrest := h.rest
  generalize t.made = n at hrest
  subst hrest
  induction steps generalizing v with
  | zero => rfl
  | succ steps ih =>
    have hsame := funext ih
    cases v <;> simp only [Store.referText, hsame] <;> rfl

/-- How many members there are is not to be seen in a text. -/
theorem text? (h : s.OnlyCounts t) (adapter : Adapter) : t.text? adapter = s.text? adapter := by
  have hcount : t.referenceCount = s.referenceCount := by rw [h.rest]; rfl
  funext v
  rw [Store.text?, Store.text?, hcount, funext (h.referText adapter _)]

end OnlyCounts

end Store

/-! ## Spots -/

/-- A place for a value that members read and write. -/
inductive Spot
  | note (c : CellId)
  | slot (c : CellId)
  | entry (base : CellId) (key : String)

namespace Spot

def cell : Spot → CellId
  | note c | slot c | entry c _ => c

def Same : Spot → Spot → Prop
  | note c, note k | slot c, slot k => c = k
  | entry base key, entry other name => base = other ∧ sameName key name = true
  | _, _ => False

/-- The value at a spot, if there is such an entry. -/
def content? (s : Store) : Spot → Option Value
  | note c | slot c => some (s.cell c)
  | entry base key =>
    match s.cell base with
    | .map entries => NameMap.lookup key entries
    | _ => none

/-- The store with another value at a spot. -/
def put (s : Store) (v : Value) : Spot → Store
  | note c | slot c => s.setCell c v
  | entry base key =>
    match s.cell base with
    | .map entries => s.setCell base (.map (NameMap.insert key v entries))
    | _ => s

variable {s t : Store} {spot other : Spot} {v w : Value} {c base : CellId} {key : String}

theorem content?_entry_eq_some_iff : (entry base key).content? s = some v ↔
    ∃ entries, s.cell base = .map entries ∧ NameMap.lookup key entries = some v := by
  cases hbase : s.cell base <;> simp [content?, hbase]

theorem put_entry {entries : NameMap Value} (h : s.cell base = .map entries) :
    (entry base key).put s v = s.setCell base (.map (entries.insert key v)) := by
  rw [put, h]

theorem put_eq_setCell (h : (spot.content? s).isSome) (v : Value) :
    ∃ written, spot.put s v = s.setCell spot.cell written := by
  cases spot with
  | note c => exact ⟨v, rfl⟩
  | slot c => exact ⟨v, rfl⟩
  | entry base key =>
    obtain ⟨w, hw⟩ := Option.isSome_iff_exists.mp h
    obtain ⟨entries, hbase, -⟩ := content?_entry_eq_some_iff.mp hw
    exact ⟨_, put_entry hbase⟩

/-- What is at a spot depends on its cell. -/
theorem content?_congr (h : t.cell spot.cell = s.cell spot.cell) :
    spot.content? t = spot.content? s := by
  cases spot <;> simp only [content?, cell] at h ⊢ <;> rw [h]

theorem Same.content?_eq (h : other.Same spot) (s : Store) :
    other.content? s = spot.content? s := by
  cases other <;> cases spot <;> simp only [Same] at h
  · rw [h]
  · rw [h]
  · obtain ⟨rfl, hname⟩ := h
    simp only [content?, NameMap.lookup_congr hname]

theorem content?_put_self (hcell : s.Has (.cell spot.cell)) (h : (spot.content? s).isSome)
    (v : Value) : spot.content? (spot.put s v) = some v := by
  cases spot with
  | note c => exact congrArg some (Store.cell_setCell_self hcell v)
  | slot c => exact congrArg some (Store.cell_setCell_self hcell v)
  | entry base key =>
    obtain ⟨w, hw⟩ := Option.isSome_iff_exists.mp h
    obtain ⟨entries, hbase, -⟩ := content?_entry_eq_some_iff.mp hw
    rw [put_entry hbase, content?_entry_eq_some_iff]
    exact ⟨_, Store.cell_setCell_self hcell _, NameMap.lookup_insert_self key v entries⟩

theorem cell_put_of_ne (h : (spot.content? s).isSome) (hc : c ≠ spot.cell) (v : Value) :
    (spot.put s v).cell c = s.cell c := by
  obtain ⟨written, hput⟩ := put_eq_setCell h v
  rw [hput, Store.cell_setCell_of_ne hc]

/-- Nor is anything written at the other entries of the same map. -/
theorem content?_put_entry (hcell : s.Has (.cell base))
    (h : ((entry base key).content? s).isSome) {name : String}
    (hname : sameName key name = false) (v : Value) :
    (entry base name).content? ((entry base key).put s v) = (entry base name).content? s := by
  obtain ⟨w, hw⟩ := Option.isSome_iff_exists.mp h
  obtain ⟨entries, hbase, -⟩ := content?_entry_eq_some_iff.mp hw
  rw [put_entry hbase, content?, content?, Store.cell_setCell_self hcell, hbase]
  exact NameMap.lookup_insert_other v entries hname

theorem keys?_put_entry (hcell : s.Has (.cell base))
    (h : ((entry base key).content? s).isSome) (v : Value) :
    ∃ keys, (s.cell base).keys? = some keys ∧
      (((entry base key).put s v).cell base).keys? = some keys := by
  obtain ⟨w, hw⟩ := Option.isSome_iff_exists.mp h
  obtain ⟨entries, hbase, hlookup⟩ := content?_entry_eq_some_iff.mp hw
  refine ⟨entries.map (·.1), by rw [hbase]; rfl, ?_⟩
  rw [put_entry hbase, Store.cell_setCell_self hcell, Value.keys?,
    NameMap.keys_insert_of_lookup (by rw [hlookup]; rfl)]

end Spot

/-! ## Members at a spot -/

/-- Both adapters are the bag adapter where that is the adapter of the model. -/
theorem AdapterTag.adapter_eq_bag {model : Adapter} (h : model = .bag) (tag : AdapterTag) :
    tag.adapter model = .bag := by
  cases tag with
  | model => exact h
  | bag => rfl

theorem Bag.get_entry {s : Store} {tag : AdapterTag} {base : CellId} {key : String}
    {entries : NameMap Value} {v : Value} {data : AdapterData} (hbase : s.cell base = .map entries)
    (hv : entries.lookup key = some v) :
    Adapter.bag.get (s.adapterState ⟨tag, base, data⟩) (.bag (.entry key)) = .ok v := by
  show Bag.get ⟨s.shelf, s.cell base⟩ (.bag (.entry key)) = _
  rw [hbase]
  simp only [Bag.get, row, bind, Except.bind, hv]

theorem Bag.set_entry {s : Store} {tag : AdapterTag} {base : CellId} {key : String}
    {entries : NameMap Value} {data : AdapterData} (hbase : s.cell base = .map entries)
    (v : Value) :
    Adapter.bag.set (s.adapterState ⟨tag, base, data⟩) (.bag (.entry key)) v =
      .ok ⟨s.shelf, .map (entries.insert key v)⟩ := by
  show Bag.set ⟨s.shelf, s.cell base⟩ (.bag (.entry key)) v = _
  rw [hbase]
  rfl

/-- The spot whose value a member of this kind reads and writes. -/
def MemberKind.spot? : MemberKind → Option Spot
  | .note c => some (.note c)
  | .slot target => some (.slot target.cell)
  | .adapted ⟨_, base, .bag (.entry key)⟩ => some (.entry base key)
  | _ => none

namespace Member

variable {env : Environment} {s t : Store} {m : Member} {spot : Spot} {v : Value}

/-- A member at a spot is a note, a variable or an entry. -/
theorem spot?_cases (h : m.kind.spot? = some spot) :
    (∃ c, m.kind = .note c ∧ spot = .note c) ∨
    (∃ target, m.kind = .slot target ∧ spot = .slot target.cell) ∨
    ∃ tag base key, m.kind = .adapted ⟨tag, base, .bag (.entry key)⟩ ∧ spot = .entry base key := by
  unfold MemberKind.spot? at h
  split at h
  next c hm => exact .inl ⟨c, hm, (Option.some.inj h).symm⟩
  next target hm => exact .inr (.inl ⟨target, hm, (Option.some.inj h).symm⟩)
  next tag base key hm => exact .inr (.inr ⟨tag, base, key, hm, (Option.some.inj h).symm⟩)
  next => cases h

/-- What a member at a spot reads is there. -/
theorem run_valueItself_of_spot? (henv : env.adapter = .bag) (h : m.kind.spot? = some spot)
    (hv : spot.content? s = some v) : (m.valueItself env).run.run s = (.ok v, s) := by
  rcases spot?_cases h with ⟨c, hm, rfl⟩ | ⟨target, hm, rfl⟩ | ⟨tag, base, key, hm, rfl⟩
  · rw [valueItself, Store.run_read_then, hm, ← Option.some.inj hv]
    rfl
  · rw [valueItself, Store.run_read_then, hm, ← Option.some.inj hv]
    rfl
  · obtain ⟨entries, hbase, hlookup⟩ := Spot.content?_entry_eq_some_iff.mp hv
    have hgettable (state : AdapterState) :
        Adapter.bag.isGettable state (.bag (.entry key)) = true := rfl
    rw [valueItself, Store.run_read_then, hm]
    dsimp only
    rw [AdapterTag.adapter_eq_bag henv, hgettable, Bag.get_entry hbase hlookup]
    rfl

/-- What a member at a spot is able to write is written there. -/
theorem eq_put_of_run_setValueItself (henv : env.adapter = .bag) (h : m.kind.spot? = some spot)
    (hspot : (spot.content? s).isSome)
    (hrun : (m.setValueItself env v).run.run s = (.ok (), t)) : t = spot.put s v := by
  rcases spot?_cases h with ⟨c, hm, rfl⟩ | ⟨target, hm, rfl⟩ | ⟨tag, base, key, hm, rfl⟩
  · rw [setValueItself, Store.run_read_then, hm] at hrun
    dsimp only at hrun
    split at hrun
    · cases hrun
      rfl
    · cases hrun
  · rw [setValueItself, Store.run_read_then, hm] at hrun
    dsimp only at hrun
    rw [Store.run_lift_then, Store.writeVariable] at hrun
    cases hwritable : target.isWritable with
    | true =>
      rw [hwritable] at hrun
      cases hrun
      rfl
    | false =>
      rw [hwritable] at hrun
      cases hrun
  · obtain ⟨w, hw⟩ := Option.isSome_iff_exists.mp hspot
    obtain ⟨entries, hbase, -⟩ := Spot.content?_entry_eq_some_iff.mp hw
    have hsettable (state : AdapterState) :
        Adapter.bag.isSettable state (.bag (.entry key)) = true := rfl
    rw [setValueItself, Store.run_read_then, hm] at hrun
    dsimp only at hrun
    rw [AdapterTag.adapter_eq_bag henv, hsettable] at hrun
    simp only [Bool.not_true, Bool.false_eq_true, if_false] at hrun
    rw [askAdapter, Store.run_read_then, Bag.set_entry hbase] at hrun
    rw [Spot.put_entry hbase]
    cases hrun
    rfl

end Member

end DynamicMembers
