import DynamicMembers.Answering
import DynamicMembers.Locking
import DynamicMembers.Proofs.Store.Commands
import DynamicMembers.Proofs.Store.Spots

/-! # What the bag adapter stores

A list is read and written at a position, and a map under a name. What is written is what is read
from then on, and all else stays: the other elements, the other entries, the order and the names. An
index may be any value at all, and a member may be older than the base value that it is bound to; so
each write either does what it should or fails without a trace (`Member.storesInBag`).

There is one way out of this. An index that can not be converted is shown in the failure, and by
then the list is locked for the write: if the list is part of what is shown, the write never
answers (`Bag.Stuck`). The read, which has the list locked for reading only, fails as it should,
unless there is no text of the index at all (`Bag.Textless`).
-/
namespace DynamicMembers
open Store

/-! ## Entries -/

namespace NameMap

variable {α : Type}

/-- The second map has the value under the name where the first has the entry of that name, and
behind all others if there is none. -/
inductive Puts (name : String) (a : α) : NameMap α → NameMap α → Prop
  | replaced {before after : NameMap α} {key : String} {old : α}
      (hbefore : ∀ entry ∈ before, sameName entry.1 name = false)
      (hkey : sameName key name = true) :
      Puts name a (before ++ (key, old) :: after) (before ++ (key, a) :: after)
  | appended {m : NameMap α} (h : ∀ entry ∈ m, sameName entry.1 name = false) :
      Puts name a m (m ++ [(name, a)])

theorem Puts.cons {name : String} {a : α} {entry : String × α} {m changed : NameMap α}
    (h : Puts name a m changed) (hentry : sameName entry.1 name = false) :
    Puts name a (entry :: m) (entry :: changed) := by
  cases h with
  | replaced hbefore hkey =>
    exact @Puts.replaced α name a (entry :: _) _ _ _
      (List.forall_mem_cons.mpr ⟨hentry, hbefore⟩) hkey
  | appended h => exact .appended (List.forall_mem_cons.mpr ⟨hentry, h⟩)

theorem puts_insert (name : String) (a : α) (m : NameMap α) : Puts name a m (m.insert name a) := by
  induction m with
  | nil => exact .appended (List.forall_mem_nil _)
  | cons entry rest ih =>
    rw [NameMap.insert]
    split
    next hkey => exact @Puts.replaced α name a [] rest _ _ (List.forall_mem_nil _) hkey
    next hkey => exact ih.cons (Bool.eq_false_iff.mpr hkey)

end NameMap

/-! ## Positions -/

namespace Value

def integer? : Value → Option Int64
  | int n => some n
  | v => v.toInt64?

theorem convertTo_int (write : Value → String) (v : Value) :
    v.convertTo write .int =
      match v.integer? with
      | some n => .ok (.int n)
      | none => .error (v.conversionError write .int) := by
  cases v with
  | float x =>
    cases h : x.toInt64? <;> simp [convertTo, changeType?, integer?, toInt64?, type, h]
  | string text =>
    cases h : readInt64 text <;> simp [convertTo, changeType?, integer?, toInt64?, type, h]
  | _ => rfl

theorem convertTo_int_eq_ok_iff {write : Value → String} {v : Value} {n : Int64} :
    v.convertTo write .int = .ok (.int n) ↔ v.integer? = some n := by
  rw [convertTo_int]
  cases v.integer? <;> simp

theorem convertTo_int_ne_ok_iff {write : Value → String} {v : Value} :
    (∀ converted, v.convertTo write .int ≠ .ok converted) ↔ v.integer? = none := by
  rw [convertTo_int]
  cases v.integer? <;> simp

end Value

namespace Bag

variable {write : Value → String} {args : List Value} {length i : ℕ}

/-- The arguments are one value, and it converts to a position in a list of this length. -/
inductive Index (write : Value → String) : List Value → ℕ → ℕ → Prop
  | intro {v : Value} {n : Int64} {length i : ℕ} (hconvert : v.convertTo write .int = .ok (.int n))
      (hposition : n.toInt = i) (hlt : i < length) : Index write [v] length i

theorem listIndex_singleton (write : Value → String) (v : Value) (length : ℕ) :
    listIndex write [v] length =
      match v.integer? with
      | some n =>
        if 0 ≤ n.toInt ∧ n.toInt < length then .ok n.toInt.toNat
        else .error (.adapter (.outOfRange n.toInt length))
      | none => .error (.conversion (v.conversionError write .int)) := by
  simp only [listIndex, expectArgs, List.length_singleton, if_true, List.headD_cons,
    v.convertTo_int write]
  cases v.integer? <;> rfl

theorem listIndex_of_length_ne (h : args.length ≠ 1) :
    listIndex write args length = .error (.arity 1 args.length) := by
  simp only [listIndex, expectArgs, h, if_false]
  rfl

theorem listIndex_eq_ok_iff :
    listIndex write args length = .ok i ↔ Index write args length i := by
  constructor
  · intro h
    by_cases hcount : args.length = 1
    · obtain ⟨v, rfl⟩ := List.length_eq_one_iff.mp hcount
      rw [listIndex_singleton] at h
      cases hinteger : v.integer? with
      | none =>
        rw [hinteger] at h
        cases h
      | some n =>
        simp only [hinteger] at h
        split at h
        next hrange =>
          cases h
          exact .intro (Value.convertTo_int_eq_ok_iff.mpr hinteger) (by omega) (by omega)
        next => cases h
    · rw [listIndex_of_length_ne hcount] at h
      cases h
  · intro h
    cases h with
    | @intro v n length i hconvert hposition hlt =>
      simp only [listIndex_singleton, Value.convertTo_int_eq_ok_iff.mp hconvert]
      rw [if_pos (by omega), hposition, Int.toNat_natCast]

/-- Whatever the values look like, the index is the same. -/
theorem Index.rewrite {other : Value → String} (h : Index write args length i) :
    Index other args length i := by
  cases h with
  | intro hconvert hposition hlt =>
    refine .intro ?_ hposition hlt
    rw [Value.convertTo_int_eq_ok_iff] at hconvert ⊢
    exact hconvert

theorem Index.lt (h : Index write args length i) : i < length := by
  cases h with
  | intro _ _ hlt => exact hlt

theorem exists_listIndex_eq_error (h : ∀ i, ¬ Index write args length i) :
    ∃ failure, listIndex write args length = .error failure := by
  cases hindex : listIndex write args length with
  | ok i => exact absurd (listIndex_eq_ok_iff.mp hindex) (h i)
  | error failure => exact ⟨failure, rfl⟩

theorem getIndexed_list (shelf : Array Value) (items : List Value) :
    getIndexed write ⟨shelf, .list items⟩ (.bag .item) args =
      (listIndex write args items.length).map fun i => items[i]?.getD .null := by
  cases hindex : listIndex write args items.length <;>
    simp [getIndexed, row, bind, Except.bind, hindex, Except.map]

theorem setIndexed_list (shelf : Array Value) (items : List Value) (v : Value) :
    setIndexed write ⟨shelf, .list items⟩ (.bag .item) v args =
      (listIndex write args items.length).map fun i => ⟨shelf, .list (items.set i v)⟩ := by
  cases hindex : listIndex write args items.length <;>
    simp [setIndexed, row, bind, Except.bind, hindex, Except.map]

/-- The one index can not be converted, and there is no text of it that leaves out the base value
in the cell. -/
inductive Stuck (adapter : Adapter) (s : Store) (base : CellId) : List Value → Prop
  | intro {v : Value} (hconvert : ∀ converted, v.convertTo (s.text adapter) .int ≠ .ok converted)
      (hshown : s.textBeside? adapter base v = none) : Stuck adapter s base [v]

/-- The one index can not be converted, and there is no text of it. -/
inductive Textless (adapter : Adapter) (s : Store) : List Value → Prop
  | intro {v : Value} (hconvert : ∀ converted, v.convertTo (s.text adapter) .int ≠ .ok converted)
      (htext : s.text? adapter v = none) : Textless adapter s [v]

/-- No object can be the index of an element of what it wraps. -/
theorem stuck_object {adapter : Adapter} {s : Store} {base : CellId} {o : ObjectId}
    (h : s.baseCell? o = some base) : Stuck adapter s base [.object o] := by
  refine .intro (Value.convertTo_int_ne_ok_iff.mpr rfl) ?_
  rw [textBeside?, Value.textWith, referTextBeside, h]
  exact if_pos (beq_self_eq_true _)

theorem shownLocked_singleton (shelf : Array Value) (items : List Value) (v : Value) :
    shownLocked ⟨shelf, .list items⟩ (.bag .item) [v] =
      if v.integer?.isSome then none else some v := by
  cases v with
  | float x =>
    cases h : (Value.float x).toInt64? <;> simp [shownLocked, Value.integer?, Value.type, h]
  | string text =>
    cases h : (Value.string text).toInt64? <;> simp [shownLocked, Value.integer?, Value.type, h]
  | _ => rfl

theorem shownLocked_of_length_ne (shelf : Array Value) (items : List Value)
    (h : args.length ≠ 1) : shownLocked ⟨shelf, .list items⟩ (.bag .item) args = none := by
  unfold shownLocked
  split
  next => exact absurd rfl h
  next => rfl

/-- What is shown is the one index, if it can not be converted. -/
theorem shownLocked_eq_some_iff (write : Value → String) {shelf : Array Value}
    {items : List Value} {v : Value} :
    shownLocked ⟨shelf, .list items⟩ (.bag .item) args = some v ↔
      args = [v] ∧ ∀ converted, v.convertTo write .int ≠ .ok converted := by
  by_cases hcount : args.length = 1
  · obtain ⟨index, rfl⟩ := List.length_eq_one_iff.mp hcount
    rw [shownLocked_singleton, List.singleton_inj]
    constructor
    · intro h
      split at h
      · cases h
      next hinteger =>
        cases h
        exact ⟨rfl, Value.convertTo_int_ne_ok_iff.mpr (Option.not_isSome_iff_eq_none.mp hinteger)⟩
    · rintro ⟨rfl, hconvert⟩
      rw [Value.convertTo_int_ne_ok_iff.mp hconvert]
      rfl
  · rw [shownLocked_of_length_ne _ _ hcount]
    constructor
    · intro h
      cases h
    · rintro ⟨rfl, -⟩
      exact absurd rfl hcount

theorem Index.shownLocked_eq_none {shelf : Array Value} {items : List Value}
    (h : Index write args length i) :
    shownLocked ⟨shelf, .list items⟩ (.bag .item) args = none := by
  rw [Option.eq_none_iff_forall_ne_some]
  intro v hshown
  obtain ⟨rfl, hconvert⟩ := (shownLocked_eq_some_iff write).mp hshown
  cases h with
  | intro hok => exact hconvert _ hok

/-! ### Base values that are something else by now -/

section

variable {state : AdapterState} (hstale : ∀ items, state.base ≠ .list items)

include hstale

theorem getIndexed_stale :
    getIndexed write state (.bag .item) args = .error (.adapter (.notIndexable .item)) := by
  cases hbase : state.base with
  | list items => exact absurd hbase (hstale items)
  | _ => simp only [getIndexed, row, bind, Except.bind, hbase]

theorem setIndexed_stale {v : Value} :
    setIndexed write state (.bag .item) v args = .error (.adapter (.notIndexable .item)) := by
  cases hbase : state.base with
  | list items => exact absurd hbase (hstale items)
  | _ => simp only [setIndexed, row, bind, Except.bind, hbase]

theorem shownLocked_stale : shownLocked state (.bag .item) args = none := by
  cases hbase : state.base with
  | list items => exact absurd hbase (hstale items)
  | _ => simp only [shownLocked, hbase]

end

section

variable {state : AdapterState} {key : String} (hstale : ∀ entries, state.base ≠ .map entries)

include hstale

theorem get_stale : get state (.bag (.entry key)) =
    .error (.adapter (.notProperty (.entry key) state.base.type)) := by
  cases hbase : state.base with
  | map entries => exact absurd hbase (hstale entries)
  | _ => simp only [get, row, bind, Except.bind, hbase]

theorem set_stale {v : Value} :
    set state (.bag (.entry key)) v = .error (.adapter (.rowReadOnly (.entry key))) := by
  cases hbase : state.base with
  | map entries => exact absurd hbase (hstale entries)
  | _ => simp only [set, row, bind, Except.bind, hbase]

end

end Bag

/-! ## Elements -/

/-- A cell that holds anything is there to be written. -/
theorem Store.cell_setCell_of_ne_null {s : Store} {c : CellId} (h : s.cell c ≠ .null) (v : Value) :
    (s.setCell c v).cell c = v := by
  refine cell_setCell_self (by_contra fun hnone => ?_) v
  have hindex : ¬ c.index < s.cells.size := hnone
  exact h (by simp [cell, hindex])

namespace Member

variable {env : Environment} {s : Store} {m : Member} {tag : AdapterTag} {base : CellId}
  {items args : List Value} {v : Value} {key : String} {entries : NameMap Value}

section

variable (hbag : tag.adapter env.adapter = .bag)
  (hkind : m.kind = .parameterized ⟨tag, base, .bag .item⟩)

include hbag hkind

theorem run_invoke_item : (m.invoke env args).run.run s =
    ((Bag.getIndexed (s.text env.adapter) ⟨s.shelf, s.cell base⟩ (.bag .item) args).mapError
      (.getValueInvocation m.name), s) := by
  have hget : Adapter.bag.getIndexed (s.text env.adapter) (s.adapterState ⟨tag, base, .bag .item⟩)
      (.bag .item) args =
        Bag.getIndexed (s.text env.adapter) ⟨s.shelf, s.cell base⟩ (.bag .item) args := rfl
  rw [invoke, invokeWith, run_read_then]
  simp only [hkind, hbag, hget]
  cases Bag.getIndexed (s.text env.adapter) ⟨s.shelf, s.cell base⟩ (.bag .item) args <;> rfl

theorem run_invokeSet_item : (m.invokeSet env v args).run.run s =
    match Bag.setIndexed (s.text env.adapter) ⟨s.shelf, s.cell base⟩ (.bag .item) v args with
    | .ok state => (.ok ⟨⟩, s.setAdapterState ⟨tag, base, .bag .item⟩ state)
    | .error failure => (.error (.setValueInvocation m.name failure), s) := by
  have hset : Adapter.bag.setIndexed (s.text env.adapter) (s.adapterState ⟨tag, base, .bag .item⟩)
      (.bag .item) v args =
        Bag.setIndexed (s.text env.adapter) ⟨s.shelf, s.cell base⟩ (.bag .item) v args := rfl
  have hsettable (state : AdapterState) :
      Adapter.bag.isIndexedSettable state (.bag .item) = true := rfl
  rw [invokeSet, run_read_then]
  simp only [hkind, hbag, hsettable, Bool.not_true, Bool.false_eq_true, if_false]
  rw [askAdapter, run_read_then, hset]
  cases Bag.setIndexed (s.text env.adapter) ⟨s.shelf, s.cell base⟩ (.bag .item) v args <;> rfl

theorem answersIndexed_item : m.answersIndexed env s args =
    match Bag.shownLocked ⟨s.shelf, s.cell base⟩ (.bag .item) args with
    | some v => (s.textBeside? env.adapter base v).isSome
    | none => true := by
  rw [answersIndexed]
  simp only [hkind, hbag]
  rfl

theorem answersIndexed_item_eq_false_iff (hlist : s.cell base = .list items) :
    m.answersIndexed env s args = false ↔ Bag.Stuck env.adapter s base args := by
  rw [answersIndexed_item hbag hkind, hlist]
  constructor
  · intro h
    split at h
    next v hshown =>
      obtain ⟨rfl, hconvert⟩ := (Bag.shownLocked_eq_some_iff (s.text env.adapter)).mp hshown
      exact .intro hconvert (Option.not_isSome_iff_eq_none.mp (Bool.eq_false_iff.mp h))
    next => cases h
  · intro h
    cases h with
    | intro hconvert hbeside =>
      rw [(Bag.shownLocked_eq_some_iff (s.text env.adapter)).mpr ⟨rfl, hconvert⟩]
      simp only [hbeside, Option.isSome_none]

/-- A member for the elements answers what the adapter finds at the index, if there is a text of an
index that has to be shown. -/
theorem invokeWith?_item : m.invokeWith? env .none args s =
    if (Bag.shownLocked ⟨s.shelf, s.cell base⟩ (.bag .item) args).all fun v =>
        (s.text? env.adapter v).isSome then
      some ((Bag.getIndexed (s.text env.adapter) ⟨s.shelf, s.cell base⟩ (.bag .item) args).mapError
        (.getValueInvocation m.name), s)
    else none := by
  have hanswers : m.answersCall env s .none args =
      (Bag.shownLocked ⟨s.shelf, s.cell base⟩ (.bag .item) args).all fun v =>
        (s.text? env.adapter v).isSome := by
    have hshown : Adapter.bag.shownLocked (s.adapterState ⟨tag, base, .bag .item⟩) (.bag .item)
        args = Bag.shownLocked ⟨s.shelf, s.cell base⟩ (.bag .item) args := rfl
    rw [answersCall, writtenFor, returnFinishes]
    simp only [hkind, hbag, hshown, Bool.and_true]
    cases Bag.shownLocked ⟨s.shelf, s.cell base⟩ (.bag .item) args <;> simp
  have hrun : (m.invokeWith env .none args).run.run s = _ := run_invoke_item hbag hkind
  rw [invokeWith?, hanswers, hrun]

/-- The read answers unless it has to show an index without a text. -/
theorem invokeWith?_item_eq_none_iff (hlist : s.cell base = .list items) :
    m.invokeWith? env .none args s = none ↔ Bag.Textless env.adapter s args := by
  rw [invokeWith?_item hbag hkind, hlist]
  constructor
  · intro h
    split at h
    · cases h
    next hmissing =>
      cases hshown : Bag.shownLocked ⟨s.shelf, .list items⟩ (.bag .item) args with
      | none =>
        rw [hshown] at hmissing
        exact absurd rfl hmissing
      | some v =>
        obtain ⟨rfl, hconvert⟩ := (Bag.shownLocked_eq_some_iff (s.text env.adapter)).mp hshown
        rw [hshown, Option.all_some] at hmissing
        exact .intro hconvert (Option.not_isSome_iff_eq_none.mp hmissing)
  · intro h
    cases h with
    | intro hconvert htext =>
      rw [(Bag.shownLocked_eq_some_iff (s.text env.adapter)).mpr ⟨rfl, hconvert⟩, Option.all_some,
        htext]
      rfl

theorem reads_item {i : ℕ} (hlist : s.cell base = .list items)
    (hindex : Bag.Index (s.text env.adapter) args items.length i) :
    m.invokeWith? env .none args s = some (.ok (items.get ⟨i, hindex.lt⟩), s) := by
  rw [invokeWith?_item hbag hkind, hlist, hindex.shownLocked_eq_none, Option.all_none, if_pos rfl,
    Bag.getIndexed_list, Bag.listIndex_eq_ok_iff.mpr hindex]
  simp [Except.map, Except.mapError, hindex.lt]

/-- An index that is found is written to, and what is written is read. -/
theorem writes_item {i : ℕ} (hlist : s.cell base = .list items)
    (hindex : Bag.Index (s.text env.adapter) args items.length i) :
    m.invokeSet? env v args s = some (.ok ⟨⟩, s.setCell base (.list (items.set i v))) ∧
      m.invokeWith? env .none args (s.setCell base (.list (items.set i v))) =
        some (.ok v, s.setCell base (.list (items.set i v))) := by
  have hcell : (s.setCell base (.list (items.set i v))).cell base = .list (items.set i v) :=
    cell_setCell_of_ne_null (by rw [hlist]; nofun) _
  have hanswers : m.answersIndexed env s args = true := by
    rw [answersIndexed_item hbag hkind, hlist, hindex.shownLocked_eq_none]
  constructor
  · rw [invokeSet?, if_pos hanswers, run_invokeSet_item hbag hkind, hlist, Bag.setIndexed_list,
      Bag.listIndex_eq_ok_iff.mpr hindex]
    rfl
  · have hafter : Bag.Index ((s.setCell base (.list (items.set i v))).text env.adapter) args
        (items.set i v).length i := by
      rw [List.length_set]
      exact hindex.rewrite
    rw [reads_item hbag hkind hcell hafter, List.get_eq_getElem, List.getElem_set_self]

/-- Without an index nothing is read and nothing written, if there is an answer. -/
theorem refuses_item (hlist : s.cell base = .list items)
    (hindex : ∀ i, ¬ Bag.Index (s.text env.adapter) args items.length i) : ∃ source,
    (∀ outcome, m.invokeWith? env .none args s = some outcome →
      outcome = (.error (.getValueInvocation m.name source), s)) ∧
      ∀ outcome, m.invokeSet? env v args s = some outcome →
        outcome = (.error (.setValueInvocation m.name source), s) := by
  obtain ⟨source, hsource⟩ := Bag.exists_listIndex_eq_error hindex
  refine ⟨source, fun outcome h => ?_, fun outcome h => ?_⟩
  · rw [invokeWith?_item hbag hkind, hlist, Bag.getIndexed_list, hsource] at h
    split at h
    · exact (Option.some.inj h).symm
    · cases h
  · rw [invokeSet?] at h
    split at h
    · rw [run_invokeSet_item hbag hkind, hlist, Bag.setIndexed_list, hsource] at h
      exact (Option.some.inj h).symm
    · cases h

theorem invokeSet?_eq_none_iff (hlist : s.cell base = .list items) :
    m.invokeSet? env v args s = none ↔ Bag.Stuck env.adapter s base args := by
  rw [← answersIndexed_item_eq_false_iff hbag hkind hlist, invokeSet?]
  cases m.answersIndexed env s args <;> simp

/-- What is no list any more has no elements to be read or written. -/
theorem refuses_stale_item (hstale : ∀ items, s.cell base ≠ .list items) : ∃ source,
    m.invokeWith? env .none args s = some (.error (.getValueInvocation m.name source), s) ∧
      m.invokeSet? env v args s = some (.error (.setValueInvocation m.name source), s) := by
  have hanswers : m.answersIndexed env s args = true := by
    rw [answersIndexed_item hbag hkind, Bag.shownLocked_stale hstale]
  refine ⟨.adapter (.notIndexable .item), ?_, ?_⟩
  · rw [invokeWith?_item hbag hkind, Bag.shownLocked_stale hstale, Option.all_none, if_pos rfl,
      Bag.getIndexed_stale hstale]
    rfl
  · rw [invokeSet?, if_pos hanswers, run_invokeSet_item hbag hkind, Bag.setIndexed_stale hstale]

end

/-! ## Entries as members -/

theorem run_value_adapted {data : AdapterData} (hbag : tag.adapter env.adapter = .bag)
    (hkind : m.kind = .adapted ⟨tag, base, data⟩) : (m.value env).run.run s =
      ((Bag.get ⟨s.shelf, s.cell base⟩ data).mapError (.getValueInvocation m.name), s) := by
  have hget : Adapter.bag.get (s.adapterState ⟨tag, base, data⟩) data =
      Bag.get ⟨s.shelf, s.cell base⟩ data := rfl
  have hgettable (state : AdapterState) : Adapter.bag.isGettable state data = true := rfl
  rw [value]
  simp only [hkind]
  rw [valueItself, run_read_then]
  simp only [hkind, hbag, hgettable, hget, Bool.not_true, Bool.false_eq_true, if_false]
  cases Bag.get ⟨s.shelf, s.cell base⟩ data <;> rfl

section

variable (hbag : tag.adapter env.adapter = .bag)
  (hkind : m.kind = .adapted ⟨tag, base, .bag (.entry key)⟩)

include hbag hkind

theorem run_setValue_entry : (m.setValue env v).run.run s =
    match Bag.set ⟨s.shelf, s.cell base⟩ (.bag (.entry key)) v with
    | .ok state => (.ok ⟨⟩, s.setAdapterState ⟨tag, base, .bag (.entry key)⟩ state)
    | .error failure => (.error (.setValueInvocation m.name failure), s) := by
  have hset : Adapter.bag.set (s.adapterState ⟨tag, base, .bag (.entry key)⟩) (.bag (.entry key))
      v = Bag.set ⟨s.shelf, s.cell base⟩ (.bag (.entry key)) v := rfl
  have hsettable (state : AdapterState) :
      Adapter.bag.isSettable state (.bag (.entry key)) = true := rfl
  rw [setValue]
  simp only [hkind]
  rw [setValueItself, run_read_then]
  simp only [hkind, hbag, hsettable, Bool.not_true, Bool.false_eq_true, if_false]
  rw [askAdapter, run_read_then, hset]
  cases Bag.set ⟨s.shelf, s.cell base⟩ (.bag (.entry key)) v <;> rfl

/-- An entry is written, there or not, and then read. -/
theorem writes_entry (hmap : s.cell base = .map entries) :
    (m.setValue env v).run.run s = (.ok ⟨⟩, s.setCell base (.map (entries.insert key v))) ∧
      (m.value env).run.run (s.setCell base (.map (entries.insert key v))) =
        (.ok v, s.setCell base (.map (entries.insert key v))) := by
  have hcell : (s.setCell base (.map (entries.insert key v))).cell base =
      .map (entries.insert key v) :=
    cell_setCell_of_ne_null (by rw [hmap]; nofun) _
  constructor
  · rw [run_setValue_entry hbag hkind, hmap]
    rfl
  · rw [run_value_adapted hbag hkind, hcell]
    simp only [Bag.get, Bag.row, bind, Except.bind, NameMap.lookup_insert_self, Except.mapError]

/-- What is no map any more has no entries to be read or written. -/
theorem refuses_stale_entry (hstale : ∀ entries, s.cell base ≠ .map entries) : ∃ unread unwritten,
    (m.value env).run.run s = (.error (.getValueInvocation m.name unread), s) ∧
      (m.setValue env v).run.run s = (.error (.setValueInvocation m.name unwritten), s) := by
  refine ⟨.adapter (.notProperty (.entry key) (s.cell base).type),
    .adapter (.rowReadOnly (.entry key)), ?_, ?_⟩
  · rw [run_value_adapted hbag hkind, Bag.get_stale hstale]
    rfl
  · rw [run_setValue_entry hbag hkind, Bag.set_stale hstale]

end

/-! ## Both -/

/-- What an indexed member does with a base value that is a list, or once was. -/
structure StoresElements (env : Environment) (m : Member) (base : CellId) : Prop where
  /-- With an index the element is read. -/
  read {s : Store} {items args : List Value} {i : ℕ} (hlist : s.cell base = .list items)
    (hindex : Bag.Index (s.text env.adapter) args items.length i) :
      m.invokeWith? env .none args s = some (.ok (items.get ⟨i, hindex.lt⟩), s)
  /-- With an index the element is replaced, and what replaces it is read from then on. -/
  written {s : Store} {items args : List Value} {i : ℕ} (v : Value)
    (hlist : s.cell base = .list items)
    (hindex : Bag.Index (s.text env.adapter) args items.length i) : ∃ t,
      m.invokeSet? env v args s = some (.ok ⟨⟩, t) ∧ t = s.setCell base (.list (items.set i v)) ∧
        t.cell base = .list (items.set i v) ∧ m.invokeWith? env .none args t = some (.ok v, t)
  /-- Without one, reading and writing fail if they answer; nothing is changed. -/
  refused {s : Store} {items args : List Value} (v : Value) (hlist : s.cell base = .list items)
    (hindex : ∀ i, ¬ Bag.Index (s.text env.adapter) args items.length i) : ∃ source,
      (∀ outcome, m.invokeWith? env .none args s = some outcome →
        outcome = (.error (.getValueInvocation m.name source), s)) ∧
        ∀ outcome, m.invokeSet? env v args s = some outcome →
          outcome = (.error (.setValueInvocation m.name source), s)
  /-- Reading does not answer exactly if an index without a text has to be shown. -/
  unread {s : Store} {items args : List Value} (hlist : s.cell base = .list items) :
    m.invokeWith? env .none args s = none ↔ Bag.Textless env.adapter s args
  /-- Writing does not answer exactly if it is stuck. -/
  unanswered {s : Store} {items args : List Value} (v : Value) (hlist : s.cell base = .list items) :
    m.invokeSet? env v args s = none ↔ Bag.Stuck env.adapter s base args
  /-- Once the base value is no list any more, both fail, and nothing is changed. -/
  stale {s : Store} (args : List Value) (v : Value) (hstale : ∀ items, s.cell base ≠ .list items) :
    ∃ source,
      m.invokeWith? env .none args s = some (.error (.getValueInvocation m.name source), s) ∧
        m.invokeSet? env v args s = some (.error (.setValueInvocation m.name source), s)

/-- What a member that is an entry does with a base value that is a map, or once was. -/
structure StoresEntry (env : Environment) (m : Member) (base : CellId) (key : String) : Prop where
  /-- The value is put under the name, and read from then on; the other entries stay. -/
  written {s : Store} {entries : NameMap Value} (v : Value) (hmap : s.cell base = .map entries) :
    ∃ changed t, NameMap.Puts key v entries changed ∧ changed.lookup key = some v ∧
      (∀ other, sameName key other = false → changed.lookup other = entries.lookup other) ∧
      (m.setValue env v).run.run s = (.ok ⟨⟩, t) ∧ t = s.setCell base (.map changed) ∧
        t.cell base = .map changed ∧ (m.value env).run.run t = (.ok v, t)
  /-- Once the base value is no map any more, both fail, and nothing is changed. -/
  stale {s : Store} (v : Value) (hstale : ∀ entries, s.cell base ≠ .map entries) :
    ∃ unread unwritten,
      (m.value env).run.run s = (.error (.getValueInvocation m.name unread), s) ∧
        (m.setValue env v).run.run s = (.error (.setValueInvocation m.name unwritten), s)

/-- The bag adapter stores elements of lists and entries of maps, under whatever index and however
old the member is; only a write that has to show what it has locked never answers. -/
theorem storesInBag (hbag : tag.adapter env.adapter = .bag) :
    (m.kind = .parameterized ⟨tag, base, .bag .item⟩ → m.StoresElements env base) ∧
      ∀ key, m.kind = .adapted ⟨tag, base, .bag (.entry key)⟩ → m.StoresEntry env base key := by
  constructor
  · intro hkind
    constructor
    case read => exact fun hlist hindex => reads_item hbag hkind hlist hindex
    case written =>
      intro s items args i v hlist hindex
      obtain ⟨hwrite, hread⟩ := writes_item hbag hkind hlist hindex (v := v)
      have hcell := cell_setCell_of_ne_null (by rw [hlist]; nofun) (.list (items.set i v))
      exact ⟨_, hwrite, rfl, hcell, hread⟩
    case refused => exact fun v hlist hindex => refuses_item hbag hkind hlist hindex
    case unread => exact fun hlist => invokeWith?_item_eq_none_iff hbag hkind hlist
    case unanswered => exact fun v hlist => invokeSet?_eq_none_iff hbag hkind hlist
    case stale => exact fun args v hstale => refuses_stale_item hbag hkind hstale
  · intro key hkind
    constructor
    case written =>
      intro s entries v hmap
      obtain ⟨hwrite, hread⟩ := writes_entry hbag hkind hmap (v := v)
      have hcell := cell_setCell_of_ne_null (by rw [hmap]; nofun) (.map (entries.insert key v))
      exact ⟨_, _, NameMap.puts_insert key v entries, NameMap.lookup_insert_self key v entries,
        fun other hother => NameMap.lookup_insert_other v entries hother, hwrite, rfl, hcell, hread⟩
    case stale => exact fun v hstale => refuses_stale_entry hbag hkind hstale

def pairAndMap : Store :=
  ((Store.initial #[]).after (Store.wrapAs (.list [.int 1, .int 2]) ["Pair"])).after
    (Store.wrapAs (.map [("Size", .int 1)]) ["Map"])

def pairItem : Member :=
  ⟨.row, "Item", .initial, some ⟨0⟩, .parameterized ⟨.model, ⟨0⟩, .bag .item⟩⟩

def lostEntry : Member :=
  ⟨.row, "Lost", .initial, some ⟨1⟩, .adapted ⟨.model, ⟨1⟩, .bag (.entry "Lost")⟩⟩

theorem storesInBag_pairAndMap :
    AdapterTag.model.adapter (CommandHost.bare.environment 1).adapter = .bag ∧
      pairItem.StoresElements (CommandHost.bare.environment 1) ⟨0⟩ ∧
      Bag.Index (pairAndMap.text .bag) [.string " 1 "] 2 1 ∧
      (∃ t, pairItem.invokeSet? (CommandHost.bare.environment 1) (.int 5) [.string " 1 "]
          pairAndMap = some (.ok ⟨⟩, t) ∧
        t.cell ⟨0⟩ = .list [.int 1, .int 5]) ∧
      lostEntry.StoresEntry (CommandHost.bare.environment 1) ⟨1⟩ "Lost" ∧
      ∃ t, (lostEntry.setValue (CommandHost.bare.environment 1) (.int 5)).run.run pairAndMap =
          (.ok ⟨⟩, t) ∧ t.cell ⟨1⟩ = .map [("Size", .int 1), ("Lost", .int 5)] := by
  obtain ⟨hitem, -⟩ := @storesInBag (CommandHost.bare.environment 1) pairItem .model ⟨0⟩ rfl
  obtain ⟨-, hentry⟩ := @storesInBag (CommandHost.bare.environment 1) lostEntry .model ⟨1⟩ rfl
  have hinteger : (Value.string " 1 ").integer? = some 1 := by decide
  have hindex : Bag.Index (pairAndMap.text .bag) [.string " 1 "] 2 1 :=
    .intro (Value.convertTo_int_eq_ok_iff.mpr hinteger) rfl (by decide)
  have hlist : pairAndMap.cell ⟨0⟩ = .list [.int 1, .int 2] := rfl
  obtain ⟨t, hwrite, -, hcell, -⟩ := (hitem rfl).written (.int 5) hlist hindex
  exact ⟨rfl, hitem rfl, hindex, ⟨t, hwrite, hcell⟩, hentry "Lost" rfl, _, rfl, rfl⟩

/-- The write does not answer if the index is the object itself: it can not be converted, and its
text is that of the list. The read fails. -/
theorem unanswered_of_self :
    pairAndMap.cell ⟨0⟩ = .list [.int 1, .int 2] ∧
      (∀ converted, (Value.object ⟨0⟩).convertTo (pairAndMap.text .bag) .int ≠ .ok converted) ∧
      pairItem.invokeSet? (CommandHost.bare.environment 1) (.int 5) [.object ⟨0⟩] pairAndMap =
        none ∧
      pairItem.invokeWith? (CommandHost.bare.environment 1) .none [.object ⟨0⟩] pairAndMap =
        some (.error (.getValueInvocation "Item" (.conversion ⟨"1 2", .object, .int⟩)),
          pairAndMap) :=
  ⟨rfl, Value.convertTo_int_ne_ok_iff.mpr rfl,
    (invokeSet?_eq_none_iff rfl rfl rfl).mpr (Bag.stuck_object rfl), rfl⟩

end Member

end DynamicMembers
