import DynamicMembers.Proofs.View.ReservedNames
import DynamicMembers.Proofs.View.Sources

/-! # What surfaces under reserved names

A member under a reserved name that is not the grouping member of the owner is an impostor.
Lists and declarations have no reserved names, so only an adapter can supply one. The views
of an object, and of a member set that inherits from it, have the grouping members first,
and a search for a predicate leaves reserved names out. The views of the grouping members
themselves do neither for a look-up or an enumeration, and show the first row of such a
name (`View.surfacesExactly`).
-/
namespace DynamicMembers

/-- The member has a reserved name and is no grouping member of the owner. -/
def Member.IsImpostor (owner : Option ObjectId) (m : Member) : Prop :=
  isReservedName m.name = true ∧ ∀ o which, owner = some o → ¬ m.IsGrouping o which

def AdapterRow.type (row : AdapterRow) : MemberType :=
  (row.memberKind .model ⟨0⟩).type

namespace View

/-- The rows that the view of a grouping member shows beside the list of its owner. Nothing claims
the reserved names before they come. -/
def bareRows (adapter : Adapter) (s : Store) (v : View) : List AdapterRow :=
  match v.scope with
  | .grouping .extended _ => []
  | .grouping _ owner =>
    ((owner.bind s.object?).map fun state => adapter.rows (s.cell state.base)).getD []
  | _ => []

/-- The row is the first of its name in the view of a grouping member, and of a type that is shown,
and its name is reserved. -/
structure Exposes (adapter : Adapter) (s : Store) (v : View) (row : AdapterRow) : Prop where
  reserved : isReservedName row.name = true
  first : (v.bareRows adapter s).find? (fun other => sameName other.name row.name) = some row
  admitted : v.mask.admits row.type = true

/-- What the view returns of impostors: those rows that it exposes, and no others. -/
structure SurfacesExactly (adapter : Adapter) (s : Store) (v : View) : Prop where
  found : ∀ name, (∃ m t, (v.get? adapter name).run s = (some m, t) ∧ m.IsImpostor v.owner?) ↔
    ∃ row, v.Exposes adapter s row ∧ sameName row.name name = true
  such : ∀ p m t, (v.first? adapter p).run s = (some m, t) → ¬ m.IsImpostor v.owner?
  listed : ∀ pattern types options,
    (∃ m ∈ ((v.matching adapter pattern types options).run s).1, m.IsImpostor v.owner?) ↔
      ∃ row, v.Exposes adapter s row ∧ pattern.accepts row.name = true ∧
        types.admits row.type = true

end View

/-! ## Sightings -/

/-- The sighting is that of a row. -/
structure Sighting.IsOf (row : AdapterRow) (x : Sighting) : Prop where
  origin : x.origin = .supplied
  name : x.name = row.name
  type : x.member.type = row.type
  flags : x.member.flags = .initial

theorem isBlankText_of_reserved {name : String} (h : isReservedName name = true) :
    isBlankText name = false := by
  obtain ⟨which, -, hsame⟩ := List.any_eq_true.mp h
  rw [← isBlankText_congr hsame]
  cases which <;> decide

namespace AdapterRow

variable {row : AdapterRow} {tag : AdapterTag} {base : CellId} {m : Member}

theorem isOf_of_toMember? (h : row.toMember? tag base = some m) :
    Sighting.IsOf row ⟨m, .supplied⟩ := by
  unfold toMember? at h
  split at h
  · cases h
  · cases h
    refine ⟨rfl, rfl, ?_, rfl⟩
    show (row.memberKind tag base).type = row.type
    unfold type memberKind
    cases row.kind <;> rfl

theorem exists_toMember? (h : isReservedName row.name = true) (tag : AdapterTag) (base : CellId) :
    ∃ m, row.toMember? tag base = some m := by
  rw [toMember?, isBlankText_of_reserved h]
  exact ⟨_, rfl⟩

theorem not_isGrouping_of_toMember? (h : row.toMember? tag base = some m) {other : Member}
    {owner : Option ObjectId} (hcopy : m.IsCopy owner other) (o : ObjectId)
    (which : ReservedMember) : ¬ other.IsGrouping o which := by
  intro hgrouping
  have htype : other.type = (Member.reserved o which).type := by rw [hgrouping]; rfl
  rw [hcopy.type, (isOf_of_toMember? h).type] at htype
  unfold AdapterRow.type memberKind at htype
  cases hkind : row.kind <;> rw [hkind] at htype <;> cases which <;> cases htype

end AdapterRow

namespace View

variable {adapter : Adapter} {s : Store} {v : View} {x : Sighting} {name : String}

/-- What is handed out is an impostor if it was supplied under a reserved name. -/
theorem isImpostor_iff (hs : s.WellNamed) (hx : v.Draws adapter s x) {m : Member}
    (hcopy : x.member.IsCopy (v.ownerFor x) m)
    (hreserved : ∀ which, x.origin = .reserved which → m = { x.member with id := m.id }) :
    m.IsImpostor v.owner? ↔ x.origin = .supplied ∧ isReservedName x.name = true := by
  have hplain {l : MemberList} (hl : l.WellNamed) (hm : x.member ∈ l.members) :
      ¬ m.IsImpostor v.owner? := by
    obtain ⟨entry, hentry, hentryMember⟩ := List.mem_map.mp hm
    rintro ⟨hname, -⟩
    rw [hcopy.name, ← hentryMember, hl.unreserved entry hentry] at hname
    cases hname
  cases hx with
  | @reserved o which ho =>
    refine iff_of_false (fun h => h.2 o which ho (hreserved which rfl)) ?_
    rintro ⟨horigin, -⟩
    cases horigin
  | stored hl hm => exact iff_of_false (hplain (hs.lists _) hm) nofun
  | inherited ho hstate hm => exact iff_of_false (hplain (hs.lists _) hm) nofun
  | declared ho hentry hm => exact iff_of_false (hplain (hs.types _ hentry) hm) nofun
  | supplied ho hstate hrow =>
    have hname : isReservedName m.name = isReservedName _ := congrArg isReservedName hcopy.name
    refine ⟨fun h => ⟨rfl, hname.symm.trans h.1⟩, fun h => ⟨hname.trans h.2, fun o which _ => ?_⟩⟩
    exact AdapterRow.not_isGrouping_of_toMember? hrow hcopy o which

/-! ## Look-ups -/

theorem find?_suppliedLayer {o : ObjectId} {state : ObjectState} (ho : s.object? o = some state)
    (name : String) : (s.suppliedLayer adapter o).find? name =
      (((adapter.rows (s.cell state.base)).find? fun row => sameName row.name name).bind
        (·.toMember? .model state.base)).map (⟨·, .supplied⟩) := by
  rw [Store.suppliedLayer, ho]
  rfl

theorem find?_stored_of_reserved (hs : s.WellNamed) (hname : isReservedName name = true)
    {layer : Layer} (h : v.storedLayer? s = some layer) : layer.find? name = none := by
  obtain ⟨l, -, rfl⟩ := Option.map_eq_some_iff.mp h
  exact congrArg (Option.map _) (find?_eq_none_of_reserved (hs.lists l) hname)

/-- A layer that has something under a reserved name comes from the owner. -/
theorem exists_source_of_reserved (hs : s.WellNamed) (hname : isReservedName name = true)
    (hshows : v.showsReserved = false) (hx : v.find? adapter s name = some x) :
    ∃ o source, v.owner? = some o ∧ source ∈ v.sources ∧
      (source.layer adapter s o).find? name = some x ∧ v.admits x.member = true := by
  obtain ⟨layer, hlayer, hfind, hadmits⟩ := exists_layer_of_find? hx
  rcases List.mem_append.mp hlayer with hlayer | hsource
  · rw [reservedLayer?, if_neg (by simp [hshows])] at hlayer
    have hnone := find?_stored_of_reserved hs hname (Option.mem_toList.mp hlayer)
    cases hnone.symm.trans hfind
  · unfold sourceLayers at hsource
    split at hsource
    next o ho =>
      obtain ⟨source, hin, rfl⟩ := List.mem_map.mp hsource
      exact ⟨o, source, ho, hin, hfind, hadmits⟩
    next => cases hsource

/-- What is supplied and found under a reserved name is that of a row that the view exposes. -/
theorem exists_exposes_of_find? (hs : s.WellNamed) (hname : isReservedName name = true)
    (hx : v.find? adapter s name = some x) (horigin : x.origin = .supplied) :
    ∃ row, v.Exposes adapter s row ∧ sameName row.name name = true ∧ x.IsOf row := by
  have hgrouping {o : ObjectId} (h : (Layer.reserved o).find? name = some x) : False := by
    obtain ⟨which, -, rfl⟩ := Option.map_eq_some_iff.mp h
    cases horigin
  obtain ⟨scope, mask⟩ := v
  cases scope with
  | object o =>
    have hfind : ((ofObject o).withMask mask).find? adapter s name = some x := hx
    rw [find?_reserved hname] at hfind
    exact (hgrouping (Option.filter_eq_some_iff.mp hfind).1).elim
  | set setName l owner inherits locked =>
    obtain ⟨o, source, -, hsource, hfind, -⟩ := exists_source_of_reserved hs hname rfl hx
    obtain rfl : source = .owner := by
      cases inherits with
      | true => exact List.mem_singleton.mp hsource
      | false => cases hsource
    replace hfind : (if isReservedName name then (Layer.reserved o).find? name
      else Layer.findIn _ name) = some x := hfind
    rw [if_pos hname] at hfind
    exact (hgrouping hfind).elim
  | grouping view owner =>
    obtain ⟨o, source, ho, hsource, hfind, hadmits⟩ := exists_source_of_reserved hs hname rfl hx
    obtain rfl : owner = some o := ho
    obtain ⟨rfl, hview⟩ : source = .adapter ∧ view ≠ .extended := by
      cases view with
      | extended => cases hsource
      | _ => exact ⟨List.mem_singleton.mp hsource, nofun⟩
    replace hfind : (s.suppliedLayer adapter o).find? name = some x := hfind
    cases hstate : s.object? o with
    | none =>
      rw [Store.suppliedLayer, hstate] at hfind
      cases hfind
    | some state =>
      rw [find?_suppliedLayer hstate] at hfind
      obtain ⟨m, hm, rfl⟩ := Option.map_eq_some_iff.mp hfind
      obtain ⟨row, hrow, hm⟩ := Option.bind_eq_some_iff.mp hm
      have hsame : sameName row.name name = true := by simpa using List.find?_some hrow
      have hof := AdapterRow.isOf_of_toMember? hm
      have hrows : (⟨.grouping view (some o), mask⟩ : View).bareRows adapter s =
          adapter.rows (s.cell state.base) := by
        cases view <;> simp_all [bareRows]
      refine ⟨row, ⟨(isReservedName_congr hsame).trans hname, ?_, ?_⟩, hsame, hof⟩
      · rw [hrows, ← hrow]
        exact congrArg (List.find? · _) (funext fun other => sameName_congr_right hsame other.name)
      · rw [← hof.type]
        exact hadmits

theorem exists_find?_of_exposes {row : AdapterRow} (hs : s.WellNamed)
    (hrow : v.Exposes adapter s row) (hsame : sameName row.name name = true) :
    ∃ x, v.find? adapter s name = some x ∧ x.IsOf row := by
  have hname : isReservedName name = true := (isReservedName_congr hsame).symm.trans hrow.reserved
  obtain ⟨scope, mask⟩ := v
  have hne : (⟨scope, mask⟩ : View).bareRows adapter s ≠ [] :=
    List.ne_nil_of_mem (List.mem_of_find?_eq_some hrow.first)
  obtain ⟨view, o, state, rfl, hview, hstate⟩ : ∃ view o state,
      scope = .grouping view (some o) ∧ view ≠ .extended ∧ s.object? o = some state := by
    cases scope with
    | object | set => exact absurd rfl hne
    | grouping view owner =>
      cases hobject : owner.bind s.object? with
      | none => exact absurd (by cases view <;> simp [bareRows, hobject]) hne
      | some state =>
        obtain ⟨o, rfl, hstate⟩ := Option.bind_eq_some_iff.mp hobject
        exact ⟨view, o, state, rfl, fun hview => hne (by rw [hview]; rfl), hstate⟩
  have hrows : (⟨.grouping view (some o), mask⟩ : View).bareRows adapter s =
      adapter.rows (s.cell state.base) := by
    cases view <;> simp_all [bareRows]
  obtain ⟨m, hm⟩ := AdapterRow.exists_toMember? hrow.reserved .model state.base
  have hof := AdapterRow.isOf_of_toMember? hm
  have hfirst : (adapter.rows (s.cell state.base)).find? (fun other => sameName other.name name) =
      some row := by
    rw [← hrows, ← hrow.first]
    exact congrArg (List.find? · _)
      (funext fun other => (sameName_congr_right hsame other.name).symm)
  have hsupplied : (s.suppliedLayer adapter o).find? name = some ⟨m, .supplied⟩ := by
    rw [find?_suppliedLayer hstate, hfirst, Option.bind_some, hm]
    rfl
  have hadmits : (⟨.grouping view (some o), mask⟩ : View).admits m = true := by
    rw [admits, hof.type]
    exact hrow.admitted
  have hsources : (⟨.grouping view (some o), mask⟩ : View).sourceLayers adapter s =
      [s.suppliedLayer adapter o] := by
    cases view with
    | extended => exact absurd rfl hview
    | _ => rfl
  refine ⟨⟨m, .supplied⟩, ?_, hof⟩
  rw [find?, if_neg (by simp [showsReserved]), hsources, List.findSome?_append,
    List.findSome?_eq_none_iff.mpr, Option.none_or]
  · simp [hsupplied, Option.filter_some, hadmits]
  · intro layer hlayer
    rw [find?_stored_of_reserved hs hname (Option.mem_toList.mp hlayer)]
    rfl

/-! ## Searches and enumerations -/

/-- A search asks the sources for names that are not reserved. -/
theorem not_supplied_of_firstSuch? {p : String → Bool} (hx : v.firstSuch? adapter s p = some x)
    (horigin : x.origin = .supplied) : isReservedName x.name = false := by
  unfold firstSuch? at hx
  dsimp only at hx
  have hreserved {o : ObjectId} : (Layer.reserved o).All fun x => x.origin ≠ .supplied :=
    Layer.all_reserved fun _ => nofun
  have hstored {l : MemberList} : (Layer.stored l).All fun x => x.origin ≠ .supplied :=
    Layer.all_stored fun _ _ => nofun
  rcases Option.or_eq_some_iff.mp hx with hx | ⟨-, hx⟩
  · rcases Option.or_eq_some_iff.mp hx with hx | ⟨-, hx⟩
    · obtain ⟨layer, hlayer, hx⟩ := Option.bind_eq_some_iff.mp hx
      unfold reservedLayer? at hlayer
      split at hlayer
      · obtain ⟨o, -, rfl⟩ := Option.map_eq_some_iff.mp hlayer
        exact absurd horigin (hreserved.members x (List.mem_of_find?_eq_some hx))
      · cases hlayer
    · obtain ⟨layer, hlayer, hx⟩ := Option.bind_eq_some_iff.mp hx
      obtain ⟨l, -, rfl⟩ := Option.map_eq_some_iff.mp hlayer
      exact absurd horigin
        (hstored.members x (List.mem_of_find?_eq_some (Option.filter_eq_some_iff.mp hx).1))
  · obtain ⟨layer, hlayer, hx⟩ := List.exists_of_findSome?_eq_some hx
    have hname := List.find?_some (Option.filter_eq_some_iff.mp hx).1
    rw [Bool.and_eq_true, Bool.not_eq_true'] at hname
    exact hname.2

theorem sameName_of_find? (hs : s.WellNamed) (hx : v.find? adapter s name = some x) :
    sameName x.name name = true := by
  obtain ⟨layer, hlayer, hfind, -⟩ := exists_layer_of_find? hx
  rw [v.lawful_layers adapter hs layer hlayer name] at hfind
  simpa using List.find?_some hfind

/-- What an enumeration has under a name is what a look-up finds that is not limited to types. -/
theorem mem_union_iff (hs : s.WellNamed) :
    x ∈ v.union adapter s ↔ (v.withMask .all).find? adapter s x.name = some x := by
  have hunion : v.union adapter s = (v.withMask .all).allSightings adapter s :=
    (allSightings_of_mask_all (v := v.withMask .all) adapter rfl).symm
  rw [hunion, find?_eq_find?_allSightings adapter hs rfl]
  refine ⟨fun hx => ?_, List.mem_of_find?_eq_some⟩
  obtain ⟨i, hi⟩ := List.mem_iff_getElem?.mp hx
  exact find?_of_getElem? ((v.withMask .all).pairwise_sightings adapter _ _ _) hi (sameName_refl _)

theorem passes_of_isOf {row : AdapterRow} (hx : x.IsOf row) (types : TypeMask)
    (options : MatchOptions) : x.member.passes types options = types.admits row.type := by
  simp [Member.passes, hx.type, hx.flags, MemberFlags.initial]

theorem exposes_withMask_iff {row : AdapterRow} :
    v.Exposes adapter s row ↔
      (v.withMask .all).Exposes adapter s row ∧ v.mask.admits row.type = true :=
  ⟨fun h => ⟨⟨h.reserved, h.first, TypeMask.all_admits _⟩, h.admitted⟩,
    fun h => ⟨h.1.reserved, h.1.first, h.2⟩⟩

/-- An enumeration has an impostor for each row that is exposed and wanted. -/
theorem exists_impostor_iff (hs : s.WellNamed) (pattern : Wildcard) (types : TypeMask)
    (options : MatchOptions) :
    (∃ x ∈ v.sightings adapter s pattern types options,
      x.origin = .supplied ∧ isReservedName x.name = true) ↔
      ∃ row, v.Exposes adapter s row ∧ pattern.accepts row.name = true ∧
        types.admits row.type = true := by
  simp only [sightings, List.mem_filter, Bool.and_eq_true, mem_union_iff hs]
  constructor
  · rintro ⟨x, ⟨hx, haccepts, hpasses⟩, horigin, hname⟩
    obtain ⟨row, hrow, -, hof⟩ := exists_exposes_of_find? hs hname hx horigin
    rw [passes_of_isOf hof, TypeMask.inter_admits, Bool.and_eq_true] at hpasses
    exact ⟨row, exposes_withMask_iff.mpr ⟨hrow, hpasses.2⟩, hof.name ▸ haccepts, hpasses.1⟩
  · rintro ⟨row, hrow, haccepts, htypes⟩
    obtain ⟨hexposes, hmask⟩ := exposes_withMask_iff.mp hrow
    obtain ⟨x, hx, hof⟩ := exists_find?_of_exposes hs hexposes (sameName_refl row.name)
    refine ⟨x, ⟨by rw [hof.name, hx], by rw [hof.name, haccepts], ?_⟩, hof.origin, ?_⟩
    · rw [passes_of_isOf hof, TypeMask.inter_admits, htypes, hmask]
      rfl
    · rw [hof.name, hrow.reserved]

/-- What surfaces in a view under reserved names is what the view exposes. -/
theorem surfacesExactly (hs : s.Reachable) (adapter : Adapter) (v : View) :
    v.SurfacesExactly adapter s := by
  have hnamed := hs.wellNamed
  have himpostor {x : Sighting} {m : Member} {t : Store} (hx : v.Draws adapter s x)
      (hrun : (v.handOut x).run s = (m, t)) :
      m.IsImpostor v.owner? ↔ x.origin = .supplied ∧ isReservedName x.name = true := by
    obtain rfl : ((v.handOut x).run s).1 = m := congrArg Prod.fst hrun
    exact isImpostor_iff hnamed hx (v.isCopy_handOut x s) fun _ h => handOut_reserved h s
  refine ⟨fun name => ⟨?_, ?_⟩, ?_, fun pattern types options => ?_⟩
  · rintro ⟨m, t, hget, hm⟩
    obtain ⟨x, hx, hrun⟩ := run_handOut?_eq_some (v.find? adapter s name) hget
    obtain ⟨horigin, hname⟩ := (himpostor (draws_of_find? hx) hrun).mp hm
    rw [isReservedName_congr (sameName_of_find? hnamed hx)] at hname
    obtain ⟨row, hrow, hsame, -⟩ := exists_exposes_of_find? hnamed hname hx horigin
    exact ⟨row, hrow, hsame⟩
  · rintro ⟨row, hrow, hsame⟩
    obtain ⟨x, hx, hof⟩ := exists_find?_of_exposes hnamed hrow hsame
    refine ⟨_, _, Prod.ext (get?_of_find? hx) rfl, (himpostor (draws_of_find? hx) rfl).mpr
      ⟨hof.origin, ?_⟩⟩
    rw [hof.name, hrow.reserved]
  · intro p m t hfirst hm
    obtain ⟨x, hx, hrun⟩ := run_handOut?_eq_some (v.firstSuch? adapter s p) hfirst
    obtain ⟨horigin, hname⟩ := (himpostor (draws_of_shows (.such hx)) hrun).mp hm
    cases (not_supplied_of_firstSuch? hx horigin).symm.trans hname
  · have hcopies : List.Forall₂ (fun x m => x.member.IsCopy (v.ownerFor x) m ∧
        ∀ which, x.origin = .reserved which → m = { x.member with id := m.id })
        (v.sightings adapter s pattern types options)
        ((v.matching adapter pattern types options).run s).1 :=
      forall₂_matching adapter v (fun x t => ⟨v.isCopy_handOut x t, fun _ h =>
        handOut_reserved h t⟩) pattern types options s
    have hdraws {x : Sighting} (hx : x ∈ v.sightings adapter s pattern types options) :
        v.Draws adapter s x := draws_of_shows (.listed (List.mem_of_mem_filter hx))
    rw [← exists_impostor_iff hnamed]
    constructor
    · rintro ⟨m, hm, himp⟩
      obtain ⟨i, hi⟩ := List.mem_iff_getElem?.mp hm
      obtain ⟨x, hx, hcopy, hreserved⟩ := exists_getElem?_of_forall₂ hcopies hi
      have hmem := List.mem_of_getElem? hx
      exact ⟨x, hmem, (isImpostor_iff hnamed (hdraws hmem) hcopy hreserved).mp himp⟩
    · rintro ⟨x, hx, hsupplied⟩
      obtain ⟨m, hm, hcopy, hreserved⟩ := exists_mem_of_forall₂ hcopies.flip hx
      exact ⟨m, hm, (isImpostor_iff hnamed (hdraws hx) hcopy hreserved).mpr hsupplied⟩

def adaptedView : View := ⟨.grouping .adapted (some ⟨0⟩), .all⟩

def psbaseRow : AdapterRow := ⟨"psbase", .property, .bag (.entry "psbase")⟩

/-- The view exposes the entry of the map, and the view of the object does not show it. -/
theorem surfacesExactly_crowded :
    crowded.Reachable ∧ adaptedView.SurfacesExactly .bag crowded ∧
    adaptedView.Exposes .bag crowded psbaseRow ∧
    (ofObject ⟨0⟩).SurfacesExactly .bag crowded ∧ (ofObject ⟨0⟩).bareRows .bag crowded = [] :=
  ⟨reachable_crowded, surfacesExactly reachable_crowded .bag adaptedView,
    ⟨by decide, by decide +kernel, by decide⟩,
    surfacesExactly reachable_crowded .bag (ofObject ⟨0⟩), rfl⟩

/-- The view of a grouping member returns an entry under the name of another one, by name and in
the listing, though a search for the very name finds nothing. -/
theorem impostor_surfaces :
    crowded.Reachable ∧ ofMember? crowded (.reserved ⟨0⟩ .adapted) = some adaptedView ∧
    (∃ m t, (adaptedView.get? .bag "psbase").run crowded = (some m, t) ∧
      m.IsImpostor adaptedView.owner?) ∧
    (((adaptedView.members .bag).run crowded).1.map (·.name) =
      ["Size", "Rank", "psbase", "ToString", "Equals"]) ∧
    ((adaptedView.first? .bag (· == "psbase")).run crowded).1 = none := by
  have hget : ((adaptedView.get? .bag "psbase").run crowded).1 =
      some ⟨.made 0, "psbase", .initial, some ⟨0⟩,
        .adapted ⟨.model, ⟨0⟩, .bag (.entry "psbase")⟩⟩ := by
    decide +kernel
  refine ⟨reachable_crowded, by decide +kernel, ⟨_, _, Prod.ext hget rfl, by decide, ?_⟩,
    by decide +kernel, by decide +kernel⟩
  rintro o which - hgrouping
  cases which <;> cases congrArg Member.kind hgrouping

end View

end DynamicMembers
