import DynamicMembers.Proofs.Store.DeepCopies
import DynamicMembers.Proofs.Store.StoredLists
import DynamicMembers.Proofs.View.Surfacing

/-! # What grouping members list

The view of a grouping member keeps nothing of its own. What it lists is put together when it
is asked for, from the list of its owner and from the rows that the adapter has for the base
value then (`ReservedView.contents`), and it refuses every change. Once the owner is gone
there is nothing to list (`View.groupsExactly_grouping`).
-/
namespace DynamicMembers

/-! ## What is there to be listed -/

namespace ReservedView

def attached (s : Store) (state : ObjectState) : List Sighting :=
  (s.list state.members).members.map (⟨·, .stored⟩)

/-- What the adapter supplies for the base value: the rows that can be members, of each name the
first. -/
def supplied (adapter : Adapter) (s : Store) (state : ObjectState) : List Sighting :=
  (firstByName AdapterRow.name []
    ((adapter.rows (s.cell state.base)).filter fun row => !isBlankText row.name)).map fun row =>
      ⟨⟨.row, row.name, .initial, none, row.memberKind .model state.base⟩, .supplied⟩

/-- What a grouping member of the object lists. -/
def contents (adapter : Adapter) (s : Store) (state : ObjectState) : ReservedView → List Sighting
  | .base | .adapted => supplied adapter s state
  | .extended => attached s state
  | .object => attached s state ++ (supplied adapter s state).filter fun x =>
      !(attached s state).any fun other => sameName other.name x.name

end ReservedView

/-- How the owner hands a sighting out: what is stored as it is, and what is supplied as a member
made for it. -/
def Sighting.GivenAs (owner : ObjectId) (x : Sighting) (m : Member) : Prop :=
  match x.origin with
  | .stored => m = x.member
  | _ => m = { x.member with id := m.id, owner := some owner }

/-- What a grouping member of an owner shows through its view, and what it leaves to be done. -/
structure View.GroupsExactly (adapter : Adapter) (s : Store) (owner : Option ObjectId)
    (view : ReservedView) (v : View) : Prop where
  /-- While the owner is there, all of its contents are listed, and nothing else. -/
  listed : ∀ o state, owner = some o → s.object? o = some state → state.alive = true →
    List.Forall₂ (Sighting.GivenAs o) (view.contents adapter s state)
      ((v.members adapter).run s).1
  /-- Any other listing is a selection from them. -/
  selected : ∀ o state, owner = some o → s.object? o = some state → state.alive = true →
    ∀ mask pattern types options, List.Forall₂ (Sighting.GivenAs o)
      ((view.contents adapter s state).filter fun x =>
        pattern.accepts x.name && x.member.passes (types.inter mask) options)
      (((v.withMask mask).matching adapter pattern types options).run s).1
  /-- Nothing is shown that is declared for a type. -/
  undeclared : ∀ mask x, (v.withMask mask).Shows adapter s x →
    x.origin = .stored ∨ x.origin = .supplied
  /-- Without the owner nothing is shown. -/
  orphaned : (∀ o, owner = some o → s.isAlive o = false) → ∀ mask,
    (∀ x, ¬ (v.withMask mask).Shows adapter s x) ∧ ∀ pattern types options,
      ((v.withMask mask).matching adapter pattern types options).run s = ([], s)
  add_refused : ∀ mask (m : Member) vouched,
    ((v.withMask mask).add m vouched).run.run s = (.error (.reservedMemberSet view.name), s)
  remove_refused : ∀ mask name,
    ((v.withMask mask).remove name).run.run s = (.error (.reservedMemberSet view.name), s)

/-! ## Layers -/

namespace AdapterRow

theorem filterMap_toMember? (rows : List AdapterRow) (tag : AdapterTag) (base : CellId) :
    rows.filterMap (·.toMember? tag base) =
      (rows.filter fun row => !isBlankText row.name).map fun row =>
        ⟨.row, row.name, .initial, none, row.memberKind tag base⟩ := by
  induction rows with
  | nil => rfl
  | cons row rows ih =>
    rw [List.filterMap_cons, List.filter_cons, ih, toMember?]
    cases isBlankText row.name <;> rfl

/-- What is supplied keeps nothing for itself, so only identity and owner of a copy differ. -/
theorem eq_of_isCopy {row : AdapterRow} {tag : AdapterTag} {base : CellId} {m : Member}
    {owner : Option ObjectId}
    (h : Member.IsCopy owner ⟨.row, row.name, .initial, none, row.memberKind tag base⟩ m) :
    m = ⟨m.id, row.name, .initial, owner, row.memberKind tag base⟩ := by
  have hkind : m.kind = row.memberKind tag base := by
    refine MemberKind.eq_of_form ?_ ?_ h.form <;>
    · unfold memberKind
      cases row.kind <;> rfl
  obtain ⟨id, name, flags, _, kind⟩ := m
  obtain ⟨rfl, rfl, -, rfl⟩ := h
  rw [← hkind]

end AdapterRow

namespace Layer

theorem unionOf_supplied (adapter : Adapter) (s : Store) (state : ObjectState) :
    unionOf [supplied adapter state.base (s.cell state.base)] =
      ReservedView.supplied adapter s state := by
  rw [unionOf, List.flatMap_singleton, members_supplied, AdapterRow.filterMap_toMember?,
    List.map_map, firstByName_map]
  rfl

/-- The list comes first, and what it claims is left out of what follows. -/
theorem unionOf_stored_cons {l : MemberList}
    (hl : l.members.Pairwise fun m other => sameName m.name other.name = false)
    (layers : List Layer) :
    unionOf (stored l :: layers) = (stored l).members ++ (unionOf layers).filter fun x =>
      !(stored l).members.any fun other => sameName other.name x.name := by
  have hdistinct : (stored l).members.Pairwise fun x y => sameName x.name y.name = false := by
    rw [members_stored, List.pairwise_map]
    exact hl
  rw [unionOf, List.flatMap_cons, firstByName_append (by simp) hdistinct,
    firstByName_claimed_append]
  refine congrArg _ (List.filter_congr fun x _ => ?_)
  rw [Bool.not_inj_iff, Bool.eq_iff_iff]
  simp [foldCase_eq_iff, Sighting.name]

end Layer

/-! ## Views of grouping members -/

namespace View

variable {adapter : Adapter} {s : Store} {o : ObjectId} {state : ObjectState} {mask : TypeMask}

theorem union_grouping (hs : s.Reachable) (hstate : s.object? o = some state)
    (view : ReservedView) (mask : TypeMask) :
    (⟨.grouping view (some o), mask⟩ : View).union adapter s =
      view.contents adapter s state := by
  have hsupplied : s.suppliedLayer adapter o =
      .supplied adapter state.base (s.cell state.base) := by
    rw [Store.suppliedLayer, hstate]
  have hstored : Layer.unionOf [.stored (s.list state.members)] =
      ReservedView.attached s state := by
    rw [Layer.unionOf_stored_cons (hs.distinct_members _)]
    exact List.append_nil _
  cases view with
  | base | adapted =>
    show Layer.unionOf [s.suppliedLayer adapter o] = _
    rw [hsupplied, Layer.unionOf_supplied]
    rfl
  | extended =>
    have hlayers : (⟨.grouping .extended (some o), mask⟩ : View).layers adapter s =
        [.stored (s.list state.members)] := by
      simp [layers, reservedLayer?, showsReserved, storedLayer?, list?, hstate, sourceLayers,
        owner?, sources]
    rw [union, hlayers, hstored]
    rfl
  | object =>
    have hlayers : (⟨.grouping .object (some o), mask⟩ : View).layers adapter s =
        [.stored (s.list state.members), s.suppliedLayer adapter o] := by
      simp [layers, reservedLayer?, showsReserved, storedLayer?, list?, hstate, sourceLayers,
        owner?, sources, Source.layer]
    rw [union, hlayers, Layer.unionOf_stored_cons (hs.distinct_members _), hsupplied,
      Layer.unionOf_supplied]
    rfl

theorem of_mem_contents {view : ReservedView} {x : Sighting}
    (hx : x ∈ view.contents adapter s state) :
    x.origin = .stored ∨ ∃ row : AdapterRow,
      x = ⟨⟨.row, row.name, .initial, none, row.memberKind .model state.base⟩, .supplied⟩ := by
  have hattached (hx : x ∈ ReservedView.attached s state) : x.origin = .stored := by
    obtain ⟨m, -, rfl⟩ := List.mem_map.mp hx
    rfl
  have hsupplied (hx : x ∈ ReservedView.supplied adapter s state) : ∃ row : AdapterRow,
      x = ⟨⟨.row, row.name, .initial, none, row.memberKind .model state.base⟩, .supplied⟩ := by
    obtain ⟨row, -, rfl⟩ := List.mem_map.mp hx
    exact ⟨row, rfl⟩
  cases view with
  | base | adapted => exact .inr (hsupplied hx)
  | extended => exact .inl (hattached hx)
  | object =>
    rcases List.mem_append.mp hx with hx | hx
    · exact .inl (hattached hx)
    · exact .inr (hsupplied (List.mem_of_mem_filter hx))

/-- What a grouping member lists is handed out for its owner. -/
theorem givenAs_of_isCopy {view : ReservedView} {x : Sighting} {m : Member}
    (hx : x ∈ view.contents adapter s state)
    (hcopy : x.member.IsCopy ((⟨.grouping view (some o), mask⟩ : View).ownerFor x) m)
    (hstored : x.origin = .stored → m = x.member) : x.GivenAs o m := by
  rcases of_mem_contents hx with horigin | ⟨row, rfl⟩
  · unfold Sighting.GivenAs
    rw [horigin]
    exact hstored horigin
  · exact AdapterRow.eq_of_isCopy hcopy

theorem givenAs_matching (hs : s.Reachable) (hstate : s.object? o = some state)
    (view : ReservedView) (mask : TypeMask) (pattern : Wildcard) (types : TypeMask)
    (options : MatchOptions) :
    List.Forall₂ (Sighting.GivenAs o)
      ((view.contents adapter s state).filter fun x =>
        pattern.accepts x.name && x.member.passes (types.inter mask) options)
      (((⟨.grouping view (some o), mask⟩ : View).matching adapter pattern types options).run
        s).1 := by
  have hgiven : List.Forall₂ (fun x m =>
        x.member.IsCopy ((⟨.grouping view (some o), mask⟩ : View).ownerFor x) m ∧
          (x.origin = .stored → m = x.member))
      ((⟨.grouping view (some o), mask⟩ : View).sightings adapter s pattern types options)
      (((⟨.grouping view (some o), mask⟩ : View).matching adapter pattern types options).run
        s).1 :=
    forall₂_matching adapter _ (fun x t => ⟨isCopy_handOut _ x t, fun horigin => by
      obtain ⟨m, origin⟩ := x
      cases horigin
      rfl⟩) pattern types options s
  rw [sightings, union_grouping hs hstate] at hgiven
  exact forall₂_imp_mem (fun x hx m h =>
    givenAs_of_isCopy (List.mem_of_mem_filter hx) h.1 h.2) hgiven

/-- The layers of a grouping member are its list and the rows of the adapter. -/
theorem not_declared_of_grouping {view : ReservedView} {owner : Option ObjectId} {x : Sighting}
    (hx : (⟨.grouping view owner, mask⟩ : View).Shows adapter s x) :
    x.origin = .stored ∨ x.origin = .supplied := by
  refine of_shows (P := fun x => x.origin = .stored ∨ x.origin = .supplied) ?_ hx
  intro layer hlayer
  rcases List.mem_append.mp hlayer with hlayer | hsource
  · rcases List.mem_append.mp hlayer with hreserved | hstored
    · cases hreserved
    · obtain ⟨l, -, rfl⟩ := Option.map_eq_some_iff.mp (Option.mem_toList.mp hstored)
      exact Layer.all_stored fun _ _ => .inl rfl
  · cases owner with
    | none => cases hsource
    | some o =>
      have hsupplied : (s.suppliedLayer adapter o).All fun x =>
          x.origin = .stored ∨ x.origin = .supplied := by
        unfold Store.suppliedLayer
        split
        · exact Layer.all_supplied fun _ _ _ => .inr rfl
        · exact ⟨fun x hx => absurd hx List.not_mem_nil, fun hx => by cases hx⟩
      cases view with
      | extended => cases hsource
      | base | adapted | object =>
        obtain rfl := List.mem_singleton.mp hsource
        exact hsupplied

/-- A grouping member without an owner has no layers. -/
theorem layers_of_orphaned (view : ReservedView) (mask : TypeMask) :
    (⟨.grouping view none, mask⟩ : View).layers adapter s = [] := by
  cases view <;> rfl

/-- The view of a grouping member shows what its owner has now, and is not to be changed. -/
theorem groupsExactly_grouping (hs : s.Reachable) (adapter : Adapter) (view : ReservedView)
    (owner : Option ObjectId) :
    (⟨.grouping view (owner.filter s.isAlive), .all⟩ : View).GroupsExactly adapter s owner
      view := by
  have halive {o : ObjectId} {state : ObjectState} (howner : owner = some o)
      (hstate : s.object? o = some state) (h : state.alive = true) :
      owner.filter s.isAlive = some o := by
    rw [howner, Option.filter_some, if_pos]
    rw [Store.isAlive, hstate, Option.map_some, Option.getD_some, h]
  refine ⟨fun o state howner hstate h => ?_, fun o state howner hstate h mask => ?_,
    fun mask x hx => not_declared_of_grouping hx, fun hgone mask => ?_,
    fun mask m vouched => add_of_refusal rfl, fun mask name => remove_of_refusal rfl⟩
  · have hlisted := @givenAs_matching adapter _ _ _ hs hstate view .all .everything .all
      .everything
    rw [List.filter_eq_self.mpr fun x _ => by simp [Member.passes, MatchOptions.everything]]
      at hlisted
    rw [halive howner hstate h]
    exact hlisted
  · rw [halive howner hstate h]
    exact givenAs_matching hs hstate view mask
  · have hnone : owner.filter s.isAlive = none := by
      rw [Option.filter_eq_none_iff]
      exact fun o ho => by simp [hgone o ho]
    rw [hnone]
    refine ⟨fun x hx => ?_, fun pattern types options => ?_⟩
    · refine of_shows (P := fun _ => False) (fun layer hlayer => ?_) hx
      rw [withMask, layers_of_orphaned] at hlayer
      cases hlayer
    · have hempty : sightings adapter s ⟨.grouping view none, mask⟩ pattern types options = [] := by
        rw [sightings, union, layers_of_orphaned]
        rfl
      show ((sightings adapter s ⟨.grouping view none, mask⟩ pattern types options).mapM
        (handOut ⟨.grouping view none, mask⟩)).run s = _
      rw [hempty]
      rfl

end View

end DynamicMembers
