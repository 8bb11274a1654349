import DynamicMembers.Proofs.Access.AdvertisedTypes
import DynamicMembers.Proofs.Access.BagStorage
import DynamicMembers.Proofs.World.Rendering

/-! # What the bag adapter lists and what it serves

The bag adapter goes by one table to list the members of a base value, and by others to read,
write, type, call and define them. They agree on every row that is listed (`Store.servesListed`): a
property is read and is of the type that it says, and written if it says so; a method answers to as
many arguments as its definition shows; an element is read at every position; and a name is found
if it is listed, whatever else goes by it.

One row asks for more than the base value can be sure to have. Its text is what `ToString` answers
with, and a base value that contains the object that wraps it has none.
-/
namespace DynamicMembers
open Store

namespace Bag

/-- The rows of a base value, one by one. -/
inductive Lists (base : Value) : AdapterRow → Prop
  | entry {entries : NameMap Value} {key : String} {v : Value} (hbase : base = .map entries)
      (h : (key, v) ∈ entries) : Lists base ⟨key, .property, .bag (.entry key)⟩
  | count {items : List Value} (hbase : base = .list items) :
      Lists base ⟨"Count", .property, .bag .count⟩
  | item {items : List Value} (hbase : base = .list items) :
      Lists base ⟨"Item", .parameterized, .bag .item⟩
  | length {text : String} (hbase : base = .string text) :
      Lists base ⟨"Length", .property, .bag .length⟩
  | text : Lists base ⟨"ToString", .method, .bag .text⟩
  | equals : Lists base ⟨"Equals", .method, .bag .equals⟩

theorem lists_of_mem_rows {base : Value} {row : AdapterRow} (h : row ∈ rows base) :
    Lists base row := by
  rcases List.mem_append.mp h with hown | hcommon
  · cases base with
    | map entries =>
      obtain ⟨⟨key, v⟩, hentry, rfl⟩ := List.mem_map.mp hown
      exact .entry rfl hentry
    | list items =>
      rcases List.mem_pair.mp hown with rfl | rfl
      · exact .count rfl
      · exact .item rfl
    | string text =>
      obtain rfl := List.mem_singleton.mp hown
      exact .length rfl
    | _ => cases hown
  · rcases List.mem_pair.mp hcommon with rfl | rfl
    · exact .text
    · exact .equals

/-- How many parameters a definition shows between its parentheses. -/
def parameterCount (definition : String) : ℕ :=
  let shown := ((definition.toList.dropWhile (· != '(')).drop 1).takeWhile (· != ')')
  if shown.isEmpty then 0 else shown.count ',' + 1

variable {shelf : Array Value} {entries : NameMap Value} {key : String}

theorem exists_get_of_mem {v : Value} (h : (key, v) ∈ entries) :
    ∃ found, get ⟨shelf, .map entries⟩ (.bag (.entry key)) = .ok found := by
  have hfound : (entries.lookup key).isSome = true := by
    rw [NameMap.lookup_eq_find?, Option.isSome_map, List.find?_isSome]
    exact ⟨_, h, sameName_refl key⟩
  obtain ⟨found, hlookup⟩ := Option.isSome_iff_exists.mp hfound
  exact ⟨found, by simp only [get, row, bind, Except.bind, hlookup]⟩

theorem Lists.exists_get {base : Value} {row : AdapterRow} (h : Lists base row)
    (hproperty : row.kind = .property) : ∃ v, get ⟨shelf, base⟩ row.data = .ok v := by
  cases h with
  | entry hbase hentry => exact hbase ▸ exists_get_of_mem hentry
  | count hbase => exact hbase ▸ ⟨_, rfl⟩
  | length hbase => exact hbase ▸ ⟨_, rfl⟩
  | item | text | equals => cases hproperty

end Bag

/-! ## Access -/

namespace Member

variable {env : Environment} {s : Store} {m : Member} {tag : AdapterTag} {base : CellId}
  {data : AdapterData} {args : List Value}

theorem run_setValue_of_not_settable (hbag : tag.adapter env.adapter = .bag)
    (hkind : m.kind = .adapted ⟨tag, base, data⟩) (hset : Bag.isSettable data = false)
    (v : Value) : (m.setValue env v).run.run s = (.error (.setValue m.name .readOnly), s) := by
  have hsettable (state : AdapterState) : Adapter.bag.isSettable state data = false := hset
  rw [setValue]
  simp only [hkind]
  rw [setValueItself, run_read_then]
  simp only [hkind, hbag, hsettable]
  rfl

/-- A method of the bag adapter answers what the adapter answers, if what it writes has a text. -/
theorem invokeWith?_method (hbag : tag.adapter env.adapter = .bag)
    (hkind : m.kind = .method ⟨tag, base, data⟩) (hints : InvocationHints) :
    m.invokeWith? env hints args s =
      if (Bag.written ⟨s.shelf, s.cell base⟩ data hints args).all fun v =>
          (s.text? env.adapter v).isSome then
        some ((Bag.invoke (s.text env.adapter) ⟨s.shelf, s.cell base⟩ data hints args).mapError
          (.methodInvocation m.name), s)
      else none := by
  have hwritten : m.writtenFor env s hints args =
      (Bag.written ⟨s.shelf, s.cell base⟩ data hints args).toList := by
    rw [writtenFor]
    simp only [hkind, hbag]
    rfl
  have hrun : (m.invokeWith env hints args).run.run s =
      ((Bag.invoke (s.text env.adapter) ⟨s.shelf, s.cell base⟩ data hints args).mapError
        (.methodInvocation m.name), s) := by
    have hinvoke : Adapter.bag.invoke (s.text env.adapter) (s.adapterState ⟨tag, base, data⟩) data
        hints args = Bag.invoke (s.text env.adapter) ⟨s.shelf, s.cell base⟩ data hints args := rfl
    rw [invokeWith, run_read_then]
    simp only [hkind, hbag, hinvoke]
    cases Bag.invoke (s.text env.adapter) ⟨s.shelf, s.cell base⟩ data hints args <;> rfl
  have hreturn : m.returnFinishes env s args = true := by
    rw [returnFinishes]
    simp only [hkind]
  rw [invokeWith?, answersCall, hwritten, hrun, hreturn]
  cases Bag.written ⟨s.shelf, s.cell base⟩ data hints args <;> simp

/-- The member stands for a row that is listed for the base value as it is now. -/
structure IsListed (s : Store) (base : CellId) (row : AdapterRow) (m : Member) : Prop where
  listed : row ∈ Bag.rows (s.cell base)
  kind : ∃ tag, m.kind = row.memberKind tag base

/-- The base value has to be written, and has no text. -/
def Unwritable (env : Environment) (s : Store) (base : CellId) (row : AdapterRow) : Prop :=
  row.data = .bag .text ∧ s.Circular env.adapter (s.cell base)

/-- The member does what its row promises. -/
structure Serves (env : Environment) (s : Store) (base : CellId) (row : AdapterRow) (m : Member) :
    Prop where
  /-- A property is read, and its value is of the type that is said of it. -/
  read : row.kind = .property → ∃ v, (m.value env).run.run s = (.ok v, s) ∧
    v.type.name = s.valueTypeName env.adapter m
  /-- It is written, with whatever value, if that is said of it. -/
  written_iff : row.kind = .property → ∀ v,
    (∃ t, (m.setValue env v).run.run s = (.ok ⟨⟩, t)) ↔ s.isSettable env.adapter m = true
  /-- A method is defined, and answers to as many arguments as its definition shows, unless it has
  to write what has no text. -/
  called : row.kind = .method → ∃ definition, m.overloads env.adapter = [definition] ∧
    ∀ args, args.length = Bag.parameterCount definition →
      (¬ Unwritable env s base row → ∃ v, m.invokeWith? env .none args s = some (.ok v, s)) ∧
        (Unwritable env s base row → m.invokeWith? env .none args s = none)
  /-- The element at every position is read. -/
  indexed : row.kind = .parameterized → ∃ items, s.cell base = .list items ∧
    ∀ args i, (h : Bag.Index (s.text env.adapter) args items.length i) →
      m.invokeWith? env .none args s = some (.ok (items.get ⟨i, h.lt⟩), s)

variable {row : AdapterRow}

theorem exists_value_of_listed (hbag : tag.adapter env.adapter = .bag)
    (hrow : row ∈ Bag.rows (s.cell base)) (hkind : m.kind = row.memberKind tag base)
    (hproperty : row.kind = .property) : ∃ v, (m.value env).run.run s = (.ok v, s) ∧
      v.type.name = s.valueTypeName env.adapter m := by
  have hkind : m.kind = .adapted ⟨tag, base, row.data⟩ := by
    rw [hkind, AdapterRow.memberKind, hproperty]
  obtain ⟨v, hget⟩ : ∃ v, Bag.get ⟨s.shelf, s.cell base⟩ row.data = .ok v :=
    (Bag.lists_of_mem_rows hrow).exists_get hproperty
  have htype : s.valueTypeName env.adapter m = Bag.valueType ⟨s.shelf, s.cell base⟩ row.data := by
    rw [valueTypeName, valueTypeNameItself]
    simp only [hkind, hbag]
    rfl
  refine ⟨v, ?_, ?_⟩
  · rw [run_value_adapted hbag hkind, hget]
    rfl
  · rw [htype, Bag.valueType_of_get hget]

theorem written_iff_of_listed (hbag : tag.adapter env.adapter = .bag)
    (hrow : row ∈ Bag.rows (s.cell base)) (hkind : m.kind = row.memberKind tag base)
    (hproperty : row.kind = .property) (v : Value) :
    (∃ t, (m.setValue env v).run.run s = (.ok ⟨⟩, t)) ↔ s.isSettable env.adapter m = true := by
  have hkind : m.kind = .adapted ⟨tag, base, row.data⟩ := by
    rw [hkind, AdapterRow.memberKind, hproperty]
  have hsettable : s.isSettable env.adapter m = Bag.isSettable row.data := by
    rw [isSettable, isSettableItself]
    simp only [hkind, hbag]
    rfl
  rw [hsettable]
  cases Bag.lists_of_mem_rows hrow with
  | entry hbase hentry => exact iff_of_true ⟨_, (writes_entry hbag hkind hbase (v := v)).1⟩ rfl
  | count | length =>
    refine iff_of_false ?_ Bool.false_ne_true
    rintro ⟨t, hrun⟩
    rw [run_setValue_of_not_settable hbag hkind rfl] at hrun
    cases hrun
  | item | text | equals => cases hproperty

theorem called_of_listed (henv : env.adapter = .bag) (hbag : tag.adapter env.adapter = .bag)
    (hrow : row ∈ Bag.rows (s.cell base)) (hkind : m.kind = row.memberKind tag base)
    (hmethod : row.kind = .method) : ∃ definition, m.overloads env.adapter = [definition] ∧
      ∀ args, args.length = Bag.parameterCount definition →
        (¬ Unwritable env s base row → ∃ v, m.invokeWith? env .none args s = some (.ok v, s)) ∧
          (Unwritable env s base row → m.invokeWith? env .none args s = none) := by
  have hkind : m.kind = .method ⟨tag, base, row.data⟩ := by
    rw [hkind, AdapterRow.memberKind, hmethod]
  have hoverloads : m.overloads env.adapter = Bag.definitions row.data := by
    rw [overloads]
    simp only [hkind, hbag]
    rfl
  have htext : (s.text? env.adapter (s.cell base)).isSome = true ↔
      ¬ s.Circular env.adapter (s.cell base) := by
    rw [henv]
    exact isSome_text?_iff Bag.describes
  rw [hoverloads]
  cases Bag.lists_of_mem_rows hrow with
  | text =>
    refine ⟨_, rfl, fun args hcount => ?_⟩
    obtain rfl : args = [] := List.length_eq_zero_iff.mp hcount
    have hcalled := @invokeWith?_method env s m tag base _ [] hbag hkind .none
    have hwritten : Bag.written ⟨s.shelf, s.cell base⟩ (.bag .text) .none [] =
        some (s.cell base) := rfl
    rw [hwritten, Option.all_some] at hcalled
    constructor
    · intro hwritable
      rw [if_pos (htext.mpr fun hcircular => hwritable ⟨rfl, hcircular⟩)] at hcalled
      exact ⟨_, hcalled⟩
    · rintro ⟨-, hcircular⟩
      rw [hcalled, if_neg (mt htext.mp (not_not_intro hcircular))]
  | equals =>
    refine ⟨_, rfl, fun args hcount => ?_⟩
    have hcount : args.length = 1 := hcount
    obtain ⟨v, rfl⟩ := List.length_eq_one_iff.mp hcount
    refine ⟨fun _ => ⟨.boolean ((s.cell base).same v), ?_⟩, fun ⟨hdata, _⟩ => by cases hdata⟩
    rw [invokeWith?_method hbag hkind]
    rfl
  | entry | count | item | length => cases hmethod

theorem indexed_of_listed (hbag : tag.adapter env.adapter = .bag)
    (hrow : row ∈ Bag.rows (s.cell base)) (hkind : m.kind = row.memberKind tag base)
    (hindexed : row.kind = .parameterized) : ∃ items, s.cell base = .list items ∧
      ∀ args i, (h : Bag.Index (s.text env.adapter) args items.length i) →
        m.invokeWith? env .none args s = some (.ok (items.get ⟨i, h.lt⟩), s) := by
  cases Bag.lists_of_mem_rows hrow with
  | @item items hbase =>
    have hkind : m.kind = .parameterized ⟨tag, base, .bag .item⟩ := hkind
    exact ⟨items, hbase, fun args i h => reads_item hbag hkind hbase h⟩
  | entry | count | length | text | equals => cases hindexed

end Member

/-! ## Look-ups -/

namespace Store

variable {env : Environment} {s : Store}

/-- The view of what the adapter has for an object finds the first row of a name. -/
theorem find?_grouping_base {o : ObjectId} {state : ObjectState} (adapter : Adapter)
    (ho : s.object? o = some state) (name : String) :
    (⟨.grouping .base (some o), .all⟩ : View).find? adapter s name =
      (((adapter.rows (s.cell state.base)).find? fun row => sameName row.name name).bind
        (·.toMember? .model state.base)).map (⟨·, .supplied⟩) := by
  have hsupplied :
      s.suppliedLayer adapter o = .supplied adapter state.base (s.cell state.base) := by
    rw [suppliedLayer, ho]
  have hlayers : (⟨.grouping .base (some o), .all⟩ : View).layers adapter s =
      [s.suppliedLayer adapter o] := rfl
  rw [View.find?_of_mask_all adapter rfl, hlayers, hsupplied, Layer.findIn,
    List.findSome?_singleton]
  rfl

/-- A listed name is looked up in the view of the member `PSBase` of an object: what is found is the
first row of that name, as a member of the object. -/
def FindsFirst (env : Environment) (s : Store) (o : ObjectId) (state : ObjectState)
    (name : String) : Prop :=
  ∃ v first m, View.ofMember? s (.reserved o .base) = some v ∧
    ((Bag.rows (s.cell state.base)).find? fun row => sameName row.name name) = some first ∧
    (v.get? env.adapter name).run s = (some m, s.after nextMemberId) ∧ m.name = first.name ∧
    m.owner = some o ∧ m.IsListed (s.after nextMemberId) state.base first

theorem findsFirst_of_listed {o : ObjectId} {state : ObjectState} {row : AdapterRow} {name : String}
    (henv : env.adapter = .bag) (ho : s.object? o = some state) (halive : s.isAlive o = true)
    (hrow : row ∈ Bag.rows (s.cell state.base)) (hname : isBlankText row.name = false)
    (hsame : sameName row.name name = true) : s.FindsFirst env o state name := by
  have hview : View.ofMember? s (.reserved o .base) = some ⟨.grouping .base (some o), .all⟩ := by
    have howner : s.ownerOf (.reserved o .base) = some o := by
      rw [ownerOf]
      exact Option.filter_eq_some_iff.mpr ⟨rfl, halive⟩
    show some (⟨.grouping .base (s.ownerOf (.reserved o .base)), .all⟩ : View) = _
    rw [howner]
  have hfound : ((Bag.rows (s.cell state.base)).find? fun row =>
      sameName row.name name).isSome = true :=
    List.find?_isSome.mpr ⟨row, hrow, hsame⟩
  obtain ⟨first, hfirst⟩ := Option.isSome_iff_exists.mp hfound
  have hfirstName : sameName first.name name = true :=
    List.find?_some (p := fun row : AdapterRow => sameName row.name name) hfirst
  have hblank : isBlankText first.name = false := by
    rw [isBlankText_congr hfirstName, ← isBlankText_congr hsame, hname]
  have hmember : first.toMember? .model state.base =
      some ⟨.row, first.name, .initial, none, first.memberKind .model state.base⟩ := by
    rw [AdapterRow.toMember?, hblank]
    rfl
  have hfind := find?_grouping_base env.adapter ho name
  have hrows : env.adapter.rows = Bag.rows := by rw [henv]; rfl
  rw [hrows, hfirst, Option.bind_some, hmember] at hfind
  have hcell : (first.memberKind .model state.base).cell? = none := by
    rw [AdapterRow.memberKind]
    cases first.kind <;> rfl
  have hlist : (first.memberKind .model state.base).list? = none := by
    rw [AdapterRow.memberKind]
    cases first.kind <;> rfl
  have hrun := run_copyFor_of_bare (m := ⟨.row, first.name, .initial, none, first.memberKind .model
    state.base⟩) hcell hlist (some o) s
  exact ⟨_, first, _, hview, hfirst, View.run_get?_of_find? hfind hrun, rfl, rfl,
    List.mem_of_find?_eq_some hfirst, .model, rfl⟩

/-- All that is listed is served. -/
structure ServesListed (env : Environment) (s : Store) : Prop where
  served : ∀ base row m, Member.IsListed s base row m → m.Serves env s base row
  found : ∀ o state row name, s.object? o = some state → s.isAlive o = true →
    row ∈ Bag.rows (s.cell state.base) → isBlankText row.name = false →
    sameName row.name name = true → s.FindsFirst env o state name

theorem servesListed (henv : env.adapter = .bag) (s : Store) : s.ServesListed env where
  served base row m h := by
    obtain ⟨hrow, tag, hkind⟩ := h
    have hbag := tag.adapter_eq_bag henv
    exact
      { read := Member.exists_value_of_listed hbag hrow hkind
        written_iff := Member.written_iff_of_listed hbag hrow hkind
        called := Member.called_of_listed henv hbag hrow hkind
        indexed := Member.indexed_of_listed hbag hrow hkind }
  found _ _ _ _ ho halive hrow hname hsame := findsFirst_of_listed henv ho halive hrow hname hsame

/-- The elements of the pair are listed, and `count` finds its first row. -/
theorem servesListed_pairAndMap :
    (CommandHost.bare.environment 1).adapter = .bag ∧
      Member.IsListed Member.pairAndMap ⟨0⟩ ⟨"Item", .parameterized, .bag .item⟩ Member.pairItem ∧
      Member.pairItem.Serves (CommandHost.bare.environment 1) Member.pairAndMap ⟨0⟩
        ⟨"Item", .parameterized, .bag .item⟩ ∧
      Member.pairAndMap.FindsFirst (CommandHost.bare.environment 1) ⟨0⟩
        ⟨⟨0⟩, ["Pair"], ⟨0⟩, true⟩ "count" := by
  have hserves : ServesListed (CommandHost.bare.environment 1) Member.pairAndMap :=
    servesListed rfl _
  have hlisted : Member.IsListed Member.pairAndMap ⟨0⟩ ⟨"Item", .parameterized, .bag .item⟩
      Member.pairItem := ⟨by decide +kernel, .model, rfl⟩
  refine ⟨rfl, hlisted, hserves.served _ _ _ hlisted, ?_⟩
  exact hserves.found ⟨0⟩ _ ⟨"Count", .property, .bag .count⟩ "count" rfl rfl (by decide +kernel)
    (by decide +kernel) (by decide +kernel)

end Store

namespace World

/-- The method that writes the object that contains itself. -/
def selfText : Member :=
  ⟨.row, "ToString", .initial, some ⟨0⟩, .method ⟨.model, ⟨0⟩, .bag .text⟩⟩

/-- A method that is listed for a base value does not answer, called with as many arguments as its
definition shows: the base value contains the object that wraps it. -/
theorem unanswered_of_selfHeld :
    selfHeld.Reachable ∧ selfHeld.store.cell ⟨0⟩ = .map [("Self", .object ⟨0⟩)] ∧
      Member.IsListed selfHeld.store ⟨0⟩ ⟨"ToString", .method, .bag .text⟩ selfText ∧
      selfText.overloads bagEnvironment.adapter = ["string ToString()"] ∧
      Bag.parameterCount "string ToString()" = 0 ∧
      selfText.invokeWith? bagEnvironment .none [] selfHeld.store = none := by
  have hlisted : Member.IsListed selfHeld.store ⟨0⟩ ⟨"ToString", .method, .bag .text⟩ selfText :=
    ⟨by decide +kernel, .model, rfl⟩
  have hself : selfHeld.store.Mentions .bag (.object ⟨0⟩) (.object ⟨0⟩) :=
    ⟨_, .base ⟨0⟩, by decide +kernel⟩
  have hcircular : selfHeld.store.Circular .bag (selfHeld.store.cell ⟨0⟩) :=
    ⟨.object ⟨0⟩, by decide +kernel, .object ⟨0⟩, .refl, .single hself⟩
  have hbag : AdapterTag.model.adapter bagEnvironment.adapter = .bag := rfl
  have hkind : selfText.kind = .method ⟨.model, ⟨0⟩, .bag .text⟩ := rfl
  obtain ⟨definition, hoverloads, hcalled⟩ :=
    Member.called_of_listed rfl hbag hlisted.listed hkind rfl
  have hdefinition : "string ToString()" = definition := List.singleton_inj.mp hoverloads
  subst hdefinition
  exact ⟨reachable_selfHeld, rfl, hlisted, hoverloads, by decide +kernel,
    (hcalled [] rfl).2 ⟨rfl, hcircular⟩⟩

end World

end DynamicMembers
