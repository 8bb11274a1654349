import DynamicMembers.Proofs.View.Additions
import DynamicMembers.Proofs.Declaration.DeclaredTypes
import DynamicMembers.Proofs.Store.StoredLists

/-! # Chains of types

Along a chain of type names members are listed with each name once, found by their name, and asked
for the type that declares them. Each is a pass of its own through the chain. All three come from
the lists of the single types: `TypeTable.FirstWith` says which of the types is the one that
counts, and `TypeTable.Resolves` what the passes give for one name.

What an object may not be given a member for are the names under which its types have one
(`Store.Reachable.resolves`).
-/
namespace DynamicMembers

namespace TypeTable

def HasMember (table : TypeTable) (typeName name : String) : Prop :=
  ∃ m ∈ table.typeMembers typeName, sameName m.name name = true

/-- Of the types of a chain, `declared` is the first with a member of this name. It is spelled as
it was declared. -/
def FirstWith (table : TypeTable) (typeNames : List String) (name declared : String) : Prop :=
  ∃ before typeName after, typeNames = before ++ typeName :: after ∧
    (∀ earlier ∈ before, ¬ table.HasMember earlier name) ∧ table.HasMember typeName name ∧
    declared ∈ table.typeNames ∧ sameName declared typeName = true

/-- What the passes through a chain give for one name. -/
structure Resolves (table : TypeTable) (typeNames : List String) (name : String) : Prop where
  /-- No two members are listed under one name. -/
  distinct : (table.membersFor typeNames).Pairwise fun m other =>
    sameName m.name other.name = false
  found_iff : ∀ m, table.memberFor? typeNames name = some m ↔
    m ∈ table.membersFor typeNames ∧ sameName m.name name = true
  missing_iff : table.memberFor? typeNames name = none ↔
    ∀ m ∈ table.membersFor typeNames, sameName m.name name = false
  isSome_declaringType? : (table.declaringType? typeNames name).isSome =
    (table.memberFor? typeNames name).isSome
  declaringType?_iff : ∀ declared, table.declaringType? typeNames name = some declared ↔
    table.FirstWith typeNames name declared
  /-- The member is one of those of the type that is named. -/
  belongs : ∀ m declared, table.memberFor? typeNames name = some m →
    table.declaringType? typeNames name = some declared → m ∈ table.typeMembers declared

/-! ## Names of types -/

variable {table types : TypeTable} {typeNames : List String} {name typeName : String}

theorem distinct_declareType (ht : NameMap.Distinct table) (typeName : String) :
    NameMap.Distinct (table.declareType typeName) := by
  unfold declareType
  split
  · exact ht
  · exact ht.insert _ _

theorem distinct_of_declare {m : Member} (ht : NameMap.Distinct table)
    (h : table.declare typeName m = .ok types) : NameMap.Distinct types := by
  obtain ⟨l, rfl, -⟩ := exists_list_of_declare h
  exact ht.insert _ _

theorem typeMembers_of_find? {entry : String × MemberList}
    (h : (table.find? fun other => sameName other.1 typeName) = some entry) :
    table.typeMembers typeName = entry.2.members := by
  rw [typeMembers, NameMap.lookup_eq_find?, h]
  rfl

/-! ## Passes through a chain -/

theorem hasMember_iff (ht : ∀ entry ∈ table, entry.2.WellNamed) :
    table.HasMember typeName name ↔ ∃ entry,
      (table.find? fun other => sameName other.1 typeName) = some entry ∧
        entry.2.contains name = true := by
  rw [HasMember]
  cases hfind : table.find? fun other => sameName other.1 typeName with
  | none =>
    rw [typeMembers, NameMap.lookup_eq_find?, hfind]
    simp
  | some entry =>
    rw [typeMembers_of_find? hfind,
      ← (ht entry (List.mem_of_find?_eq_some hfind)).contains_iff]
    simp

theorem memberFor?_eq_some_iff (ht : ∀ entry ∈ table, entry.2.WellNamed) {m : Member} :
    table.memberFor? typeNames name = some m ↔
      m ∈ table.membersFor typeNames ∧ sameName m.name name = true := by
  rw [memberFor?_eq ht]
  constructor
  · exact fun h => ⟨List.mem_of_find?_eq_some h, by simpa using List.find?_some h⟩
  · rintro ⟨hm, hname⟩
    obtain ⟨i, hi⟩ := List.getElem?_of_mem hm
    exact find?_of_getElem? pairwise_firstByName hi hname

theorem memberFor?_eq_none_iff (ht : ∀ entry ∈ table, entry.2.WellNamed) :
    table.memberFor? typeNames name = none ↔
      ∀ m ∈ table.membersFor typeNames, sameName m.name name = false := by
  rw [memberFor?_eq ht, List.find?_eq_none]
  simp

theorem memberFor?_eq_bind (table : TypeTable) (typeNames : List String) (name : String) :
    table.memberFor? typeNames name =
      ((table.chain typeNames).find? fun entry => entry.2.contains name).bind
        fun entry => entry.2.find? name := by
  rw [memberFor?]
  induction table.chain typeNames with
  | nil => rfl
  | cons entry rest ih =>
    have hcontains : entry.2.contains name = (entry.2.find? name).isSome :=
      NameMap.holds_eq_isSome_lookup _ _
    rw [List.findSome?_cons, List.find?_cons, hcontains]
    cases hfind : entry.2.find? name with
    | none => exact ih
    | some m => simp [hfind]

theorem isSome_declaringType? (table : TypeTable) (typeNames : List String) (name : String) :
    (table.declaringType? typeNames name).isSome = (table.memberFor? typeNames name).isSome := by
  rw [memberFor?_eq_bind, declaringType?, Option.isSome_map]
  cases hfind : (table.chain typeNames).find? fun entry => entry.2.contains name with
  | none => rfl
  | some entry =>
    have hcontains : entry.2.contains name = true := by simpa using List.find?_some hfind
    rw [MemberList.contains, NameMap.holds_eq_isSome_lookup] at hcontains
    exact hcontains.symm

/-- The type that is named is the first of the chain with a member of the name. -/
theorem declaringType?_eq_some_iff (ht : ∀ entry ∈ table, entry.2.WellNamed)
    (hdistinct : NameMap.Distinct table) {declared : String} :
    table.declaringType? typeNames name = some declared ↔
      table.FirstWith typeNames name declared := by
  have hany (typeName : String) :
      ((table.find? fun other => sameName other.1 typeName).any
        fun entry => entry.2.contains name) = true ↔ table.HasMember typeName name := by
    rw [hasMember_iff ht, Option.any_eq_true]
  rw [declaringType?, chain, List.find?_filterMap, Option.map_eq_some_iff]
  constructor
  · rintro ⟨entry, hentry, rfl⟩
    obtain ⟨typeName, hfirst, hfind⟩ := Option.bind_eq_some_iff.mp hentry
    obtain ⟨hmember, before, after, hsplit, hbefore⟩ := List.find?_eq_some_iff_append.mp hfirst
    refine ⟨before, typeName, after, hsplit, fun earlier hearlier => ?_, (hany typeName).mp hmember,
      List.mem_map.mpr ⟨entry, List.mem_of_find?_eq_some hfind, rfl⟩, ?_⟩
    · rw [← hany]
      simpa using hbefore earlier hearlier
    · simpa using List.find?_some hfind
  · rintro ⟨before, typeName, after, hsplit, hbefore, hmember, hdeclared, hname⟩
    obtain ⟨entry, hentry, rfl⟩ := List.mem_map.mp hdeclared
    have hfind := hdistinct.find?_eq_some_iff.mpr ⟨hentry, hname⟩
    refine ⟨entry, Option.bind_eq_some_iff.mpr ⟨typeName, ?_, hfind⟩, rfl⟩
    refine List.find?_eq_some_iff_append.mpr ⟨(hany typeName).mpr hmember, before, after, hsplit,
      fun earlier hearlier => ?_⟩
    simpa using mt (hany earlier).mp (hbefore earlier hearlier)

theorem resolves_of_wellNamed (ht : ∀ entry ∈ table, entry.2.WellNamed)
    (hdistinct : NameMap.Distinct table) (typeNames : List String) (name : String) :
    table.Resolves typeNames name where
  distinct := pairwise_firstByName
  found_iff _ := memberFor?_eq_some_iff ht
  missing_iff := memberFor?_eq_none_iff ht
  isSome_declaringType? := isSome_declaringType? table typeNames name
  declaringType?_iff _ := declaringType?_eq_some_iff ht hdistinct
  belongs := by
    intro m declared hm hdeclared
    obtain ⟨entry, hfind, rfl⟩ := Option.map_eq_some_iff.mp hdeclared
    rw [memberFor?_eq_bind, hfind, Option.bind_some] at hm
    have hentry : entry ∈ table := mem_of_mem_chain (List.mem_of_find?_eq_some hfind)
    have hself := hdistinct.find?_eq_some_iff.mpr ⟨hentry, sameName_refl entry.1⟩
    rw [typeMembers_of_find? hself]
    rw [(ht entry hentry).find?_eq] at hm
    exact List.mem_of_find?_eq_some hm

/-- No reserved name is declared. -/
theorem not_reserved_of_memberFor? (ht : ∀ entry ∈ table, entry.2.WellNamed)
    (h : (table.memberFor? typeNames name).isSome = true) : isReservedName name = false := by
  obtain ⟨m, hm⟩ := Option.isSome_iff_exists.mp h
  obtain ⟨entry, hentry, hfind⟩ := List.exists_of_findSome?_eq_some hm
  have hnamed := ht entry (mem_of_mem_chain hentry)
  rw [hnamed.find?_eq] at hfind
  have hname : sameName m.name name = true := by simpa using List.find?_some hfind
  rw [← isReservedName_congr hname]
  exact hnamed.unreserved_of_mem (List.mem_of_find?_eq_some hfind)

end TypeTable

/-! ## What the declarations are to an object -/

namespace Store

def Supplies (s : Store) (o : ObjectId) (name : String) : Prop :=
  (s.types.memberFor? (s.typeNames o) name).isSome = true

/-- The names that the types of an object supply are those that no one may add a member under,
unless that is vouched for. -/
structure ShieldsDeclared (s : Store) (o : ObjectId) : Prop where
  /-- What is supplied is what the object shows, as long as it has no such member of its own. -/
  shown_iff : ∀ adapter name,
    (∃ x, (View.ofObject o).find? adapter s name = some x ∧ x.origin = .declared) ↔
      s.Supplies o name ∧ (View.ofObject o).attached? s name = none
  /-- An addition is refused as a duplicate if one of the types has a member of that name, and its
  own type is not what it is refused for. -/
  duplicate_iff : ∀ mask m declared,
    (((View.ofObject o).withMask mask).add m false).run.run s =
        (.error (.duplicateInTypeConfiguration m.name declared), s) ↔
      (m.type ≠ .property ∧ m.type ≠ .method ∧ mask.admits m.type = true) ∧
        s.types.FirstWith (s.typeNames o) m.name declared
  supplies_iff : ∀ name, s.Supplies o name ↔
    ∃ declared, s.types.FirstWith (s.typeNames o) name declared
  refused : ∀ mask m, s.Supplies o m.name → ∃ refusal,
    (((View.ofObject o).withMask mask).add m false).run.run s = (.error refusal, s)

variable {s : Store} {o : ObjectId}

theorem Reachable.distinct_types (hs : s.Reachable) : NameMap.Distinct s.types :=
  hs.types_of_lasts ⟨.nil, fun name ht => TypeTable.distinct_declareType ht name,
    TypeTable.distinct_of_declare⟩

theorem find?_ofObject (adapter : Adapter) (s : Store) (o : ObjectId) (name : String) :
    (View.ofObject o).find? adapter s name = ((Layer.reserved o).find? name).or
      ((((View.ofObject o).attached? s name).map (⟨·, .stored⟩)).or
        (((s.declaredLayer o).find? name).or ((s.suppliedLayer adapter o).find? name))) := by
  have hstored : (View.ofObject o).storedLayer? s =
      ((View.ofObject o).list? s).map fun l => .stored (s.list l) := rfl
  have hattached : (View.ofObject o).attached? s name =
      ((View.ofObject o).list? s).bind fun l => (s.list l).find? name := by
    rw [View.attached?]
    cases (View.ofObject o).list? s with
    | none => rfl
    | some l =>
      have hadmits (m : Member) : (View.ofObject o).admits m = true :=
        View.admits_of_mask_all rfl m
      cases hfind : (s.list l).find? name <;> simp [hfind, hadmits]
  have hlayers : (View.ofObject o).layers adapter s = .reserved o ::
      (((View.ofObject o).storedLayer? s).toList ++
        [s.declaredLayer o, s.suppliedLayer adapter o]) := rfl
  rw [View.find?_of_mask_all adapter rfl, hlayers, hstored, hattached]
  cases (View.ofObject o).list? s with
  | none =>
    simp only [Layer.findIn, Option.map_none, Option.toList_none, List.nil_append,
      List.findSome?_cons, List.findSome?_nil, Option.bind_none, Option.none_or]
    cases (Layer.reserved o).find? name <;> cases (s.declaredLayer o).find? name <;>
      cases (s.suppliedLayer adapter o).find? name <;> rfl
  | some l =>
    have hlist : (Layer.stored (s.list l)).find? name =
        ((s.list l).find? name).map (⟨·, .stored⟩) := rfl
    simp only [Layer.findIn, Option.map_some, Option.toList_some, List.cons_append,
      List.nil_append, List.findSome?_cons, List.findSome?_nil, Option.bind_some, hlist]
    cases (Layer.reserved o).find? name <;> cases (s.list l).find? name <;>
      cases (s.declaredLayer o).find? name <;>
        cases (s.suppliedLayer adapter o).find? name <;> rfl

theorem origin_of_supplied {adapter : Adapter} {name : String} {x : Sighting}
    (h : (s.suppliedLayer adapter o).find? name = some x) : x.origin = .supplied := by
  unfold suppliedLayer at h
  split at h
  · obtain ⟨m, -, rfl⟩ := Option.map_eq_some_iff.mp h
    rfl
  · cases h

/-- A declared member is what an object shows under its name, unless it has one of its own. -/
theorem find?_ofObject_declared_iff (ht : ∀ entry ∈ s.types, entry.2.WellNamed)
    (adapter : Adapter) (name : String) :
    (∃ x, (View.ofObject o).find? adapter s name = some x ∧ x.origin = .declared) ↔
      s.Supplies o name ∧ (View.ofObject o).attached? s name = none := by
  have hdeclared : (s.declaredLayer o).find? name =
      (s.types.memberFor? (s.typeNames o) name).map (⟨·, .declared⟩) := rfl
  rw [find?_ofObject, hdeclared, Supplies]
  cases hreserved : (Layer.reserved o).find? name with
  | some x =>
    have hname := Layer.isSome_find?_reserved o name
    rw [hreserved] at hname
    obtain ⟨which, -, rfl⟩ := Option.map_eq_some_iff.mp hreserved
    constructor
    · rintro ⟨_, ⟨⟩, horigin⟩
      cases horigin
    · rintro ⟨hsupplied, -⟩
      rw [TypeTable.not_reserved_of_memberFor? ht hsupplied] at hname
      cases hname
  | none =>
    cases (View.ofObject o).attached? s name with
    | some m => simp
    | none =>
      cases s.types.memberFor? (s.typeNames o) name with
      | some m => simp
      | none => simpa using fun x hx => by simp [origin_of_supplied hx]

/-- The answer to an addition to an object tells a duplicate from all else. -/
theorem add_eq_duplicate_iff {mask : TypeMask} {m : Member} {declared : String} :
    (((View.ofObject o).withMask mask).add m false).run.run s =
        (.error (.duplicateInTypeConfiguration m.name declared), s) ↔
      ((View.ofObject o).withMask mask).addRefusal? s m false =
        some (.duplicateInTypeConfiguration m.name declared) := by
  refine ⟨fun h => ?_, View.add_of_refusal⟩
  cases hrefusal : ((View.ofObject o).withMask mask).addRefusal? s m false with
  | some refusal =>
    rw [View.add_of_refusal hrefusal] at h
    cases h
    rfl
  | none =>
    cases hl : ((View.ofObject o).withMask mask).list? s with
    | none =>
      rw [View.add_of_no_list hrefusal hl] at h
      cases h
    | some l =>
      obtain ⟨⟨copy, u⟩, hcopy⟩ : ∃ made,
          (copyFor (((View.ofObject o).withMask mask).owner?.or m.owner) m).run s = made :=
        ⟨_, rfl⟩
      obtain ⟨replaced, members, -, hrun⟩ := View.run_add hrefusal hl hcopy
      rw [hrun] at h
      cases h

theorem addRefusal?_eq_duplicate_iff (ht : ∀ entry ∈ s.types, entry.2.WellNamed)
    {mask : TypeMask} {m : Member} {declared : String} :
    ((View.ofObject o).withMask mask).addRefusal? s m false =
        some (.duplicateInTypeConfiguration m.name declared) ↔
      (m.type ≠ .property ∧ m.type ≠ .method ∧ mask.admits m.type = true) ∧
        s.types.declaringType? (s.typeNames o) m.name = some declared := by
  have hdeclaring : ((View.ofObject o).withMask mask).declaringType? s m.name =
      s.types.declaringType? (s.typeNames o) m.name := rfl
  have hlocked : ((View.ofObject o).withMask mask).isReadOnly = false := rfl
  have hadmits : ((View.ofObject o).withMask mask).admits m = mask.admits m.type := rfl
  unfold View.addRefusal?
  rw [hlocked, hdeclaring, hadmits, if_neg Bool.false_ne_true]
  by_cases hname : isReservedName m.name = true
  · -- A reserved name is refused as such; no type has a member under it.
    rw [if_pos hname]
    refine iff_of_false (by simp) fun ⟨_, hdeclared⟩ => ?_
    have hsupplied : (s.types.memberFor? (s.typeNames o) m.name).isSome = true := by
      rw [← TypeTable.isSome_declaringType?, hdeclared, Option.isSome_some]
    rw [TypeTable.not_reserved_of_memberFor? ht hsupplied] at hname
    cases hname
  rw [if_neg hname, if_neg Bool.false_ne_true]
  by_cases htype : m.type = .property ∨ m.type = .method
  · rw [if_pos htype]
    exact iff_of_false (by simp) fun ⟨⟨hproperty, hmethod, _⟩, _⟩ => htype.elim hproperty hmethod
  rw [if_neg htype]
  obtain ⟨hproperty, hmethod⟩ := not_or.mp htype
  cases hmask : mask.admits m.type with
  | false => simp
  | true => simp [hproperty, hmethod]

theorem shieldsDeclared (hs : s.Reachable) (o : ObjectId) : s.ShieldsDeclared o := by
  have ht := hs.wellNamed.types
  have hfirst {name declared : String} :
      s.types.declaringType? (s.typeNames o) name = some declared ↔
        s.types.FirstWith (s.typeNames o) name declared :=
    TypeTable.declaringType?_eq_some_iff ht hs.distinct_types
  have hsupplies (name : String) : s.Supplies o name ↔
      ∃ declared, s.types.FirstWith (s.typeNames o) name declared := by
    rw [Supplies, ← TypeTable.isSome_declaringType?, Option.isSome_iff_exists]
    exact exists_congr fun _ => hfirst
  refine ⟨find?_ofObject_declared_iff ht, fun mask m declared => ?_, hsupplies, fun mask m h => ?_⟩
  · rw [add_eq_duplicate_iff, addRefusal?_eq_duplicate_iff ht, hfirst]
  · have hrefused : ((View.ofObject o).withMask mask).Refuses s m false := by
      obtain ⟨declared, before, typeName, after, hsplit, -, ⟨other, hother, hname⟩, -⟩ :=
        (hsupplies m.name).mp h
      refine .inr (.inr ⟨rfl, .inr (.inr (.inr ⟨o, rfl, typeName, ?_, other, hother, hname⟩))⟩)
      rw [hsplit]
      exact List.mem_append_right _ List.mem_cons_self
    obtain ⟨refusal, hrefusal⟩ := Option.isSome_iff_exists.mp
      ((View.addRefusal?_isSome hs).mpr hrefused)
    exact ⟨refusal, View.add_of_refusal hrefusal⟩

/-- The passes through a chain agree, for every chain and every name, and what an object is refused
a member of its own for are the names that its types supply. -/
theorem Reachable.resolves (hs : s.Reachable) :
    (∀ typeNames name, s.types.Resolves typeNames name) ∧ ∀ o, s.ShieldsDeclared o :=
  ⟨TypeTable.resolves_of_wellNamed hs.wellNamed.types hs.distinct_types, shieldsDeclared hs⟩

def derived : Store :=
  (((((initial #[]).after
    (declare "Derived" ⟨.made 0, "Shared", .initial, none, .propertySet ["x"]⟩).run).after
    (declare "Derived" ⟨.made 1, "Own", .initial, none, .propertySet ["x"]⟩).run).after
    (declare "Base" ⟨.made 2, "SHARED", .initial, none, .propertySet ["x"]⟩).run).after
    (declare "Base" ⟨.made 3, "Size", .initial, none, .propertySet ["x"]⟩).run).after
    (wrapAs .null ["derived", "Gone", "DERIVED", "base"])

theorem reachable_derived : derived.Reachable :=
  ⟨#[], .tail (.tail (.tail (.tail (.tail .refl (.declare _ _)) (.declare _ _)) (.declare _ _))
    (.declare _ _)) (.wrapAs _ _)⟩

/-- What is shared is that of the first type, and the object is refused a member of its own for
what only the second type has. -/
theorem Reachable.resolves_derived :
    derived.Reachable ∧
    derived.types.Resolves ["derived", "Gone", "DERIVED", "base"] "shared" ∧
    (derived.types.membersFor ["derived", "Gone", "DERIVED", "base"]).map (·.name) =
      ["Shared", "Own", "Size"] ∧
    derived.types.declaringType? ["derived", "Gone", "DERIVED", "base"] "shared" =
      some "Derived" ∧
    derived.ShieldsDeclared ⟨0⟩ ∧
    (((View.ofObject ⟨0⟩).add ⟨.made 4, "SIZE", .initial, none, .propertySet ["x"]⟩ false).run.run
      derived) = (.error (.duplicateInTypeConfiguration "SIZE" "Base"), derived) := by
  obtain ⟨hresolves, hshields⟩ := Store.Reachable.resolves reachable_derived
  have hsize : derived.types.FirstWith (derived.typeNames ⟨0⟩) "SIZE" "Base" :=
    ((hresolves _ _).declaringType?_iff _).mp (by decide +kernel)
  exact ⟨reachable_derived, hresolves _ _, by decide +kernel, by decide +kernel, hshields ⟨0⟩,
    ((hshields ⟨0⟩).duplicate_iff .all ⟨.made 4, "SIZE", .initial, none, .propertySet ["x"]⟩
      "Base").mpr ⟨by decide, hsize⟩⟩

end Store

end DynamicMembers
