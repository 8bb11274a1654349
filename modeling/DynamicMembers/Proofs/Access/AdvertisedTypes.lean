import DynamicMembers.Proofs.Access.Gates
import DynamicMembers.Proofs.World.Definitions
import DynamicMembers.Proofs.World.WrittenValues

/-! # The types that members advertise

A member says of what type its value is without reading it. The answer and the value are put
together in different places: the answer from the signature of a callable, the conversion of
an alias or the table of an adapter, the value by calling, converting or asking the adapter.
Where the answer is not `any`, the value that is read is of the type that was advertised
(`World.Reachable.advertises`).

For callables this hangs on the check of definitions. A getter that declares no return type
would be advertised with the type that the setter takes, and its value be returned as it
is; but no member is made with such a getter, and none comes about by other ways
(`World.Reachable.wellDefined`).
-/
namespace DynamicMembers

/-- Members of this kind advertise the type of what they hold, compute or are. Left out are inferred
and dynamic members, events, what adapters other than that for plain values supply, and aliases,
which go by what they lead to. -/
def MemberKind.Advertises (model : Adapter) : MemberKind → Prop
  | .note _ | .slot _ | .captured _ | .code .. | .script .. => True
  | .propertySet _ | .method _ | .codeMethod _ | .scriptMethod .. | .memberSet .. => True
  | .adapted binding => binding.adapter.adapter model = .bag
  | .aliasOf .. | .inferred _ | .parameterized _ | .event .. | .dynamic => False

/-- The member is of such a kind, or an alias that leads to one of such a kind in the end. -/
inductive Store.Advertises (adapter : Adapter) (s : Store) (m : Member) : Prop
  | itself (h : m.kind.Advertises adapter) : Advertises adapter s m
  | target {reference : String} {conversion : Option ValueType} {o : ObjectId} {x : Sighting}
      (hm : m.kind = .aliasOf reference conversion)
      (hx : s.aliasTarget adapter m reference = .ok (o, x))
      (h : x.member.kind.Advertises adapter) : Advertises adapter s m

/-! ## Conversions -/

theorem Value.type_of_convertTo {write : Value → String} {target : ValueType} {v converted : Value}
    (h : v.convertTo write target = .ok converted) (hany : target ≠ .any) :
    converted.type = target := by
  unfold convertTo at h
  split at h
  next hsame =>
    cases h
    exact hsame.resolve_left hany
  next =>
    split at h
    next hchange =>
      cases h
      cases target <;> simp only [changeType?, Option.map_eq_some_iff, Option.some.injEq,
        reduceCtorEq] at hchange
      case any => exact absurd rfl hany
      case list =>
        subst hchange
        cases v <;> rfl
      case int | float =>
        obtain ⟨n, -, rfl⟩ := hchange
        rfl
      all_goals
        subst hchange
        rfl
    next => cases h

section

variable {env : Environment} {s t : Store} {m : Member} {v converted : Value}

theorem type_of_convertFor {type : ValueType}
    (h : (convertFor env m type v).run.run s = (.ok converted, t)) (hany : type ≠ .any) :
    converted.type = type := by
  rw [convertFor, Store.run_read_then] at h
  split at h
  next hconvert =>
    cases h
    exact Value.type_of_convertTo hconvert hany
  next => cases h

end

/-! ## Values of members that are no aliases -/

/-- What the adapter for plain values reads is of the type that its table has for it. -/
theorem Bag.valueType_of_get {state : AdapterState} {data : AdapterData} {v : Value}
    (h : get state data = .ok v) : valueType state data = v.type.name := by
  obtain ⟨r, hr, hget⟩ := exists_of_bind_eq_ok h
  obtain rfl : data = .bag r := by
    cases data <;> cases hr
    rfl
  unfold valueType
  split at hget
  next key entries hbase =>
    simp only [hbase]
    split at hget
    next => cases hget; rfl
    next => cases hget
  next => cases hget; rfl
  next => cases hget; rfl
  next => cases hget

/-- A getter that passes the check declares what it returns, and that is advertised. -/
theorem CodeReference.exists_returns {getter : CodeReference} (h : getter.getterFault? = none) :
    ∃ type, getter.returns = some type ∧
      ∀ setter, codeValueType (some getter) setter = type := by
  unfold getterFault? at h
  split at h
  next hshape =>
    obtain ⟨type, htype⟩ := Option.isSome_iff_exists.mp hshape.2
    exact ⟨type, htype, fun setter => by simp [codeValueType, htype]⟩
  next => cases h

namespace Member

variable {env : Environment} {s t : Store} {m : Member} {v : Value}

theorem type_of_code {getter : CodeReference} {setter : Option CodeReference}
    (hkind : m.kind = .code (some getter) setter) (hgetter : getter.getterFault? = none)
    (hrun : (m.valueItself env).run.run s = (.ok v, t))
    (hany : codeValueType (some getter) setter ≠ .any) :
    v.type = codeValueType (some getter) setter := by
  obtain ⟨type, hreturns, htype⟩ := CodeReference.exists_returns hgetter
  rw [htype] at hany ⊢
  rw [valueItself, Store.run_read_then, hkind] at hrun
  dsimp only at hrun
  split at hrun
  · cases hrun
  · obtain ⟨returned, u, -, hconvert⟩ := Store.ok_of_then_ok hrun
    rw [hreturns] at hconvert
    exact type_of_convertFor hconvert hany

theorem type_of_bag {binding : Binding} (hkind : m.kind = .adapted binding)
    (hbag : binding.adapter.adapter env.adapter = .bag)
    (hrun : (m.valueItself env).run.run s = (.ok v, t)) :
    (binding.adapter.adapter env.adapter).valueType (s.adapterState binding) binding.data =
      v.type.name := by
  rw [valueItself, Store.run_read_then, hkind] at hrun
  dsimp only at hrun
  rw [hbag] at hrun ⊢
  split at hrun
  · cases hrun
  · split at hrun
    next hget =>
      cases hrun
      exact Bag.valueType_of_get hget
    next => cases hrun

/-- Where a member is read itself, its value is of the type that it advertises. -/
theorem type_of_valueItself (hm : m.kind.fault? = none) (h : m.kind.Advertises env.adapter)
    (hrun : (m.valueItself env).run.run s = (.ok v, t))
    (htype : s.valueTypeNameItself env.adapter m ≠ ValueType.any.name) :
    s.valueTypeNameItself env.adapter m = v.type.name := by
  unfold Store.valueTypeNameItself at htype ⊢
  cases hkind : m.kind with
  | code getter setter =>
    simp only [hkind] at htype ⊢
    cases getter with
    | none =>
      rw [valueItself, Store.run_read_then, hkind] at hrun
      cases hrun
    | some getter =>
      have hgetter : getter.getterFault? = none := by
        rw [hkind] at hm
        exact (Option.or_eq_none_iff.mp hm).1
      rw [type_of_code hkind hgetter hrun fun hany => htype (by rw [hany])]
  | adapted binding =>
    rw [hkind] at h
    exact type_of_bag hkind h hrun
  | script getter setter policy => simp [hkind] at htype
  | aliasOf | inferred | parameterized | event | dynamic =>
    rw [hkind] at h
    exact h.elim
  | note | captured | slot | propertySet | method | codeMethod | scriptMethod | memberSet =>
    rw [valueItself, Store.run_read_then, hkind] at hrun
    cases hrun
    rfl

end Member

/-! ## What aliases are handed -/

/-- Which cell or list a kind has makes no difference. -/
theorem MemberKind.advertises_of_form {model : Adapter} {kind other : MemberKind}
    (hform : other.form = kind.form) (h : kind.Advertises model) : other.Advertises model := by
  have hself (kind : MemberKind) : kind.form.Advertises model ↔ kind.Advertises model := by
    unfold form
    split <;> exact Iff.rfl
  rw [← hself] at h ⊢
  rwa [hform]

theorem Store.freshCopy_copyFor {m : Member} (owner : Option ObjectId) (hl : m.kind.list? = none)
    (s : Store) : s.FreshCopy (s.after (copyFor owner m)) owner m ((copyFor owner m).run s).1 := by
  have hdeep : s.DeepCopy (s.after (copyWithin owner (s.lists.size + 1) m)) owner 0 m
      ((copyWithin owner (s.lists.size + 1) m).run s).1 := deepCopy_of_list?_eq_none owner hl
  rw [after, copyFor, StateT.run_bind]
  exact hdeep.freshCopy

namespace View

variable {v : View} {x : Sighting} {s : Store}

theorem cell_handOut {c k : CellId} (hc : x.member.kind.cell? = some c)
    (hk : ((v.handOut x).run s).1.kind.cell? = some k) :
    (s.after (v.handOut x)).cell k = s.cell c := by
  have hl : x.member.kind.list? = none := by
    cases hkind : x.member.kind <;> rw [hkind] at hc <;> first | rfl | cases hc
  obtain ⟨m, origin⟩ := x
  cases origin with
  | reserved which =>
    obtain rfl : c = k := by cases which <;> exact Option.some.inj (hc.symm.trans hk)
    cases which <;> rfl
  | stored =>
    obtain rfl : c = k := Option.some.inj (hc.symm.trans hk)
    rfl
  | declared => exact (Store.freshCopy_copyFor v.owner? hl s).stored c hc k hk
  | supplied => exact (Store.freshCopy_copyFor v.owner? hl s).stored c hc k hk

end View

namespace Store

variable {adapter : Adapter} {s : Store} {m : Member} {o : ObjectId} {x : Sighting}

theorem valueTypeNameItself_of_cell? {c : CellId} (h : m.kind.cell? = some c) :
    s.valueTypeNameItself adapter m = (s.cell c).type.name := by
  unfold valueTypeNameItself
  cases hkind : m.kind <;> rw [hkind] at h <;> cases h <;> rfl

theorem valueTypeNameItself_of_list? {l : ListId} (h : m.kind.list? = some l) :
    s.valueTypeNameItself adapter m = ValueType.member.name := by
  obtain ⟨inherits, hkind⟩ := MemberKind.exists_memberSet_of_list? h
  rw [valueTypeNameItself, hkind]

/-- What is handed out advertises the type that was advertised by what was found. -/
theorem valueTypeNameItself_handOut (adapter : Adapter) (v : View) (x : Sighting) (s : Store) :
    (s.after (v.handOut x)).valueTypeNameItself adapter ((v.handOut x).run s).1 =
      s.valueTypeNameItself adapter x.member := by
  have hform := (v.isCopy_handOut x s).form
  cases hc : x.member.kind.cell? with
  | some c =>
    have hcell := MemberKind.cell?_of_form hform
    rw [hc, Option.isSome_some, Option.isSome_iff_exists] at hcell
    obtain ⟨k, hk⟩ := hcell
    rw [valueTypeNameItself_of_cell? hk, valueTypeNameItself_of_cell? hc, View.cell_handOut hc hk]
  | none =>
    cases hl : x.member.kind.list? with
    | some l =>
      have hlist := MemberKind.list?_of_form hform
      rw [hl, Option.isSome_some, Option.isSome_iff_exists] at hlist
      obtain ⟨k, hk⟩ := hlist
      rw [valueTypeNameItself_of_list? hk, valueTypeNameItself_of_list? hl]
    | none =>
      obtain ⟨m, t, hrun, hcounts, hkind, -⟩ := v.run_handOut_of_steady (.inr ⟨hc, hl⟩) s
      rw [after, hrun, hcounts.rest]
      simp only [valueTypeNameItself, hkind]
      rfl

theorem valueTypeName_of_reference?_eq_none (h : m.reference? = none) :
    s.valueTypeName adapter m = s.valueTypeNameItself adapter m := by
  unfold valueTypeName
  split
  next hkind => exact absurd hkind (Member.reference?_eq_none_iff.mp h _ _)
  next hkind => exact absurd hkind (Member.reference?_eq_none_iff.mp h _ _)
  next => rfl

/-- What an alias leads to is shown by an object. -/
theorem WellDefined.of_aliasTarget {reference : String} (hs : s.WellDefined)
    (h : s.aliasTarget adapter m reference = .ok (o, x)) : x.member.WellDefined := by
  unfold aliasTarget at h
  split at h
  · cases h
  next owner _ =>
    obtain ⟨y, hfollow, hy⟩ := exists_of_bind_eq_ok h
    cases hy
    obtain ⟨name, hfound⟩ := exists_found_of_follow hfollow
    exact hs.of_draws (View.draws_of_shows (.found hfound))

end Store

/-! ## What members read -/

namespace Member

variable {env : Environment} {s t : Store} {m : Member} {v : Value} {reference : String}
  {o : ObjectId} {x : Sighting}

/-- The value of an alias with a conversion is of the type that the alias names, whatever the alias
leads to. -/
theorem type_of_conversion {type : ValueType} (hkind : m.kind = .aliasOf reference (some type))
    (hrun : (m.value env).run.run s = (.ok v, t)) (hany : type ≠ .any) : v.type = type := by
  rw [value, hkind] at hrun
  obtain ⟨target, u, -, hrun⟩ := Store.ok_of_then_ok hrun
  obtain ⟨read, u, -, hconvert⟩ := Store.ok_of_then_ok hrun
  exact type_of_convertFor hconvert hany

/-- An alias without a conversion reads and advertises what it leads to. -/
theorem type_of_target (hs : s.WellDefined) (hkind : m.kind = .aliasOf reference none)
    (hx : s.aliasTarget env.adapter m reference = .ok (o, x))
    (h : x.member.kind.Advertises env.adapter) (hrun : (m.value env).run.run s = (.ok v, t))
    (htype : s.valueTypeNameItself env.adapter x.member ≠ ValueType.any.name) :
    s.valueTypeNameItself env.adapter x.member = v.type.name := by
  rw [value, hkind] at hrun
  dsimp only at hrun
  rw [Store.run_then_of_ok (run_resolve hx rfl)] at hrun
  obtain ⟨read, u, hread, hsame⟩ := Store.ok_of_then_ok hrun
  cases hsame
  have hcopy := (View.ofObject o).isCopy_handOut x s
  rw [← Store.valueTypeNameItself_handOut env.adapter (View.ofObject o)] at htype ⊢
  exact type_of_valueItself ((hs.of_aliasTarget hx).of_isCopy hcopy).kind
    (MemberKind.advertises_of_form hcopy.form h) hread htype

end Member

namespace World

variable {w : World} {env : Environment} {m : Member} {v : Value} {t : Store}

/-- In a world that can be reached, a value that is read is of the type that was advertised. -/
theorem Reachable.advertises (hw : w.Reachable) (hm : m ∈ w.members)
    (h : w.store.Advertises env.adapter m)
    (hrun : (m.value env).run.run w.store = (.ok v, t))
    (htype : w.store.valueTypeName env.adapter m ≠ ValueType.any.name) :
    w.store.valueTypeName env.adapter m = v.type.name := by
  cases h with
  | itself h =>
    have hlast : m.reference? = none := by
      rw [Member.reference?_eq_none_iff]
      intro reference conversion hkind
      rw [hkind] at h
      exact h
    rw [Member.value_of_reference?_eq_none hlast] at hrun
    rw [Store.valueTypeName_of_reference?_eq_none hlast] at htype ⊢
    exact Member.type_of_valueItself (hw.wellDefined.members m hm).kind h hrun htype
  | @target reference conversion o x hkind hx h =>
    unfold Store.valueTypeName at htype ⊢
    cases conversion with
    | some type =>
      simp only [hkind] at htype ⊢
      rw [Member.type_of_conversion hkind hrun fun hany => htype (by rw [hany])]
    | none =>
      simp only [hkind, hx] at htype ⊢
      exact Member.type_of_target hw.wellDefined.store hkind hx h hrun htype

def linkedKey : Member := ⟨.made 2, "Link", .initial, some ⟨0⟩, .aliasOf "KEY" none⟩

/-- The alias of an entry advertises the type of what the entry has, and an alias of that alias the
type that it converts to. -/
theorem Reachable.advertises_linkedTwice :
    (linkedTwice.Reachable ∧ linkedKey ∈ linkedTwice.members ∧
      linkedTwice.store.Advertises bagEnvironment.adapter linkedKey ∧
      ((linkedKey.value bagEnvironment).run.run linkedTwice.store).1 = .ok (.int 1) ∧
      linkedTwice.store.valueTypeName bagEnvironment.adapter linkedKey ≠ ValueType.any.name ∧
      linkedTwice.store.valueTypeName bagEnvironment.adapter linkedKey = ValueType.int.name) ∧
    linkedText ∈ linkedTwice.members ∧
      linkedTwice.store.Advertises bagEnvironment.adapter linkedText ∧
      ((linkedText.value bagEnvironment).run.run linkedTwice.store).1 = .ok (.string "1") ∧
      linkedTwice.store.valueTypeName bagEnvironment.adapter linkedText ≠ ValueType.any.name ∧
      linkedTwice.store.valueTypeName bagEnvironment.adapter linkedText =
        ValueType.string.name := by
  have hkey : linkedKey ∈ linkedTwice.members := by decide +kernel
  have htext : linkedText ∈ linkedTwice.members := by decide +kernel
  have hentry : suppliedKey.member.kind.Advertises bagEnvironment.adapter := rfl
  have hkeyLeads : linkedTwice.store.Advertises bagEnvironment.adapter linkedKey :=
    .target rfl (x := suppliedKey) rfl hentry
  have htextLeads : linkedTwice.store.Advertises bagEnvironment.adapter linkedText :=
    .target rfl (x := suppliedKey) rfl hentry
  have hkeyNamed : linkedTwice.store.valueTypeName bagEnvironment.adapter linkedKey ≠
      ValueType.any.name := by decide +kernel
  have htextNamed : linkedTwice.store.valueTypeName bagEnvironment.adapter linkedText ≠
      ValueType.any.name := by decide +kernel
  have hkeyRead : (linkedKey.value bagEnvironment).run.run linkedTwice.store =
      (.ok (.int 1), linkedTwice.store.after (linkedKey.value bagEnvironment).run) :=
    Prod.ext rfl rfl
  have htextRead : (linkedText.value bagEnvironment).run.run linkedTwice.store =
      (.ok (.string "1"), linkedTwice.store.after (linkedText.value bagEnvironment).run) :=
    Prod.ext rfl rfl
  exact ⟨⟨reachable_linkedTwice, hkey, hkeyLeads, congrArg Prod.fst hkeyRead, hkeyNamed,
    reachable_linkedTwice.advertises hkey hkeyLeads hkeyRead hkeyNamed⟩, htext, htextLeads,
    congrArg Prod.fst htextRead, htextNamed,
    reachable_linkedTwice.advertises htext htextLeads htextRead htextNamed⟩

end World

end DynamicMembers
