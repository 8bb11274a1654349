import DynamicMembers.Proofs.Declaration.Isolation
import DynamicMembers.Proofs.View.NestedWrites

/-! # What is to be read through a member

A member keeps at every level a name and flags, the value that is stored in it, and the
members that are nested in it in their order (`Store.contents`). All of it depends on the
parts that the member has, so who leaves these alone leaves everything as it was that is
to be read through the member (`Member.ReadsAlike`). What a member set shows of its owner
is not kept in the set, and is left open here.
-/
namespace DynamicMembers

/-! ## Contents -/

/-- What is to be seen of a member: what it is, the value that is stored in it, and the members
nested in it, in order and each under its key, with the count of the hidden ones. -/
inductive Contents
  | node (name : String) (flags : MemberFlags) (form : MemberKind) (value : Option Value)
      (nested : Option (Nat × List (String × Contents)))

namespace Store

/-- The contents of a member, down to some level. Members and objects in a value are handles. -/
def contents (s : Store) : Nat → Member → Contents
  | 0, m => .node m.name m.flags m.kind.form (m.kind.cell?.map s.cell) none
  | depth + 1, m => .node m.name m.flags m.kind.form (m.kind.cell?.map s.cell)
      (m.kind.list?.map fun l => ((s.list l).hiddenCount,
        (s.list l).entries.map fun entry => (entry.1, s.contents depth entry.2)))

/-- At every level of the member the same is stored and the same is nested in both stores. -/
structure SameParts (s t : Store) (m : Member) : Prop where
  cell : ∀ c, s.Spans m (.cell c) → t.cell c = s.cell c
  list : ∀ l, s.Spans m (.list l) → t.list l = s.list l

/-- The operation leaves both stores as they are and has the same answer in both. -/
def AnswersAlike {α : Type} (s t : Store) (x : StateM Store α) : Prop :=
  ∃ answer, x.run s = (answer, s) ∧ x.run t = (answer, t)

/-- The members have no part in common, at whatever level. -/
def Apart (s : Store) (m other : Member) : Prop := ∀ p, s.Spans m p → ¬ s.Spans other p

end Store

/-- What the view has itself is the same in both stores, and so is all that it shows if it draws on
nothing else. -/
structure View.SeenAlike (s t : Store) (v : View) : Prop where
  attached : ∀ name, v.attached? t name = v.attached? s name
  found : ∀ adapter name, v.sources = [] ∨ (v.attached? s name).isSome = true →
    s.AnswersAlike t (v.get? adapter name)
  such : ∀ adapter p, v.sources = [] → s.AnswersAlike t (v.first? adapter p)
  listed : ∀ adapter pattern types options, v.sources = [] →
    s.AnswersAlike t (v.matching adapter pattern types options)

/-- All that the member keeps is the same in both stores, and is read the same. -/
structure Member.ReadsAlike (s t : Store) (m : Member) : Prop where
  parts : s.SameParts t m
  contents : ∀ depth, t.contents depth m = s.contents depth m
  includes : ∀ inner, t.Includes m inner ↔ s.Includes m inner
  value : ∀ inner, s.Includes m inner → ∀ c, inner.kind.cell? = some c → ∀ env : Environment,
    s.AnswersAlike t (inner.value env).run
  view : ∀ inner, s.Includes m inner → ∀ l, inner.kind.list? = some l →
    ∃ v, View.ofMember? s inner = some v ∧ View.ofMember? t inner = some v ∧
      ∀ mask, (v.withMask mask).SeenAlike s t

/-! ## The same parts -/

namespace Store

variable {Γ : Ledger} {h : Holder} {s t u : Store} {m inner other : Member} {l : ListId}
  {p : Part}

theorem Includes.spans (hinner : s.Includes m inner) (hp : s.Spans inner p) : s.Spans m p := by
  induction hinner with
  | self => exact hp
  | nested hl hnested _ ih => exact .nested hl hnested (ih hp)

theorem spans_list (hl : m.kind.list? = some l) : s.Spans m (.list l) :=
  .own (Member.mem_own_of_kind (MemberKind.list_mem_own.mpr hl))

theorem spans_cell {c : CellId} (hc : m.kind.cell? = some c) : s.Spans m (.cell c) :=
  .own (Member.mem_own_of_kind (MemberKind.cell_mem_own.mpr hc))

theorem spans_of_kind (hid : other.id = m.id) (hkind : other.kind = m.kind)
    (hp : s.Spans m p) : s.Spans other p := by
  cases hp with
  | own hp =>
    refine .own ?_
    rwa [Member.own, Member.serial?, hid, hkind]
  | nested hl hnested hp => exact .nested (hkind ▸ hl) hnested hp

theorem contents_flags_congr {depth : Nat} (h : t.contents depth other = s.contents depth m)
    (flags : MemberFlags) : t.contents depth { other with flags := flags } =
      s.contents depth { m with flags := flags } := by
  cases depth <;> simp only [contents, Contents.node.injEq, true_and] at h ⊢ <;>
    exact ⟨h.1, h.2.2⟩

namespace SameParts

theorem refl (s : Store) (m : Member) : s.SameParts s m := ⟨fun _ _ => rfl, fun _ _ => rfl⟩

theorem included (hm : s.SameParts t m) (hinner : s.Includes m inner) : s.SameParts t inner :=
  ⟨fun c hc => hm.cell c (hinner.spans hc), fun l hl => hm.list l (hinner.spans hl)⟩

theorem nested {nested : Member} (hm : s.SameParts t m) (hl : m.kind.list? = some l)
    (hnested : nested ∈ (s.list l).members) : s.SameParts t nested :=
  hm.included (.nested hl hnested (.self nested))

theorem spans_iff (hm : s.SameParts t m) : t.Spans m p ↔ s.Spans m p := by
  constructor
  · intro hp
    induction hp with
    | own hp => exact .own hp
    | nested hl hnested _ ih =>
      rw [hm.list _ (spans_list hl)] at hnested
      exact .nested hl hnested (ih (hm.nested hl hnested))
  · intro hp
    induction hp with
    | own hp => exact .own hp
    | nested hl hnested _ ih =>
      refine .nested hl ?_ (ih (hm.nested hl hnested))
      rwa [hm.list _ (spans_list hl)]

theorem includes_iff (hm : s.SameParts t m) : t.Includes m inner ↔ s.Includes m inner := by
  constructor
  · intro hinner
    induction hinner with
    | self => exact .self _
    | nested hl hnested _ ih =>
      rw [hm.list _ (spans_list hl)] at hnested
      exact .nested hl hnested (ih (hm.nested hl hnested))
  · intro hinner
    induction hinner with
    | self => exact .self _
    | nested hl hnested _ ih =>
      refine .nested hl ?_ (ih (hm.nested hl hnested))
      rwa [hm.list _ (spans_list hl)]

theorem trans (hm : s.SameParts t m) (hrest : t.SameParts u m) : s.SameParts u m where
  cell c hc := (hrest.cell c (hm.spans_iff.mpr hc)).trans (hm.cell c hc)
  list l hl := (hrest.list l (hm.spans_iff.mpr hl)).trans (hm.list l hl)

theorem of_keeps {P : Part → Prop} (hs : s.Sound Γ) (hm : m.Fits Γ s h) (hkeeps : s.Keeps P t)
    (hP : ∀ p, s.Spans m p → P p) : s.SameParts t m where
  cell _ hc := hkeeps.cell (hP _ hc) (hs.has_of_spans hm hc)
  list _ hl := hkeeps.list (hP _ hl) (hs.has_of_spans hm hl)

theorem contents (hm : s.SameParts t m) (depth : Nat) :
    t.contents depth m = s.contents depth m := by
  have hvalue {m : Member} (hm : s.SameParts t m) :
      m.kind.cell?.map t.cell = m.kind.cell?.map s.cell := by
    cases hc : m.kind.cell? with
    | none => rfl
    | some c => rw [Option.map_some, Option.map_some, hm.cell c (spans_cell hc)]
  induction depth generalizing m with
  | zero => rw [Store.contents, Store.contents, hvalue hm]
  | succ depth ih =>
    rw [Store.contents, Store.contents, hvalue hm]
    refine congrArg _ ?_
    cases hl : m.kind.list? with
    | none => rfl
    | some l =>
      rw [Option.map_some, Option.map_some, hm.list l (spans_list hl)]
      refine congrArg (fun entries => some (_, entries)) ?_
      refine List.map_congr_left fun entry hentry => ?_
      rw [ih (hm.nested hl (List.mem_map_of_mem hentry))]

end SameParts

theorem DeepCopy.contents_eq {owner : Option ObjectId} {levels : Nat}
    (hcopy : s.DeepCopy t owner levels m other) (depth : Nat) :
    t.contents depth other = s.contents depth m := by
  have hvalue {m other : Member} (hcopy : s.FreshCopy t owner m other) :
      other.kind.cell?.map t.cell = m.kind.cell?.map s.cell := by
    have hsome := MemberKind.cell?_of_form hcopy.form
    cases hc : m.kind.cell? <;> cases hk : other.kind.cell? <;> simp only [hc, hk] at hsome
    case none.none => rfl
    case some.some c k => exact congrArg some (hcopy.stored c hc k hk)
    all_goals cases hsome
  induction depth generalizing levels m other with
  | zero =>
    have hfresh := hcopy.freshCopy
    rw [contents, contents, hfresh.name, hfresh.flags, hfresh.form, hvalue hfresh]
  | succ depth ih =>
    have hfresh := hcopy.freshCopy
    rw [contents, contents, hfresh.name, hfresh.flags, hfresh.form, hvalue hfresh]
    refine congrArg _ ?_
    have hsome := MemberKind.list?_of_form hfresh.form
    cases hl : m.kind.list? <;> cases hk : other.kind.list? <;> simp only [hl, hk] at hsome
    case none.none => rfl
    case some.some l k =>
      obtain ⟨fewer, hidden, hentries⟩ := hcopy.nested hl hk
      have hsame : List.Forall₂ Eq
          ((s.list l).entries.map fun entry => (entry.1, s.contents depth entry.2))
          ((t.list k).entries.map fun entry => (entry.1, t.contents depth entry.2)) := by
        rw [List.forall₂_map_left_iff, List.forall₂_map_right_iff]
        exact hentries.imp fun entry other hentry => by rw [hentry.1, ih hentry.2]
      rw [List.forall₂_eq_eq_eq] at hsame
      rw [Option.map_some, Option.map_some, hidden, hsame]
    all_goals cases hsome

end Store

/-! ## What is read -/

namespace View

variable {adapter : Adapter} {s t : Store} {v : View} {x : Sighting} {l : ListId}

/-- A view that draws on nothing else shows what is in its list. -/
theorem stored_of_shows (hreserved : v.showsReserved = false) (hsources : v.sources = [])
    (h : v.Shows adapter s x) : x.origin = .stored := by
  refine of_shows (P := fun x => x.origin = .stored) (fun layer hlayer => ?_) h
  have hnone : v.sourceLayers adapter s = [] := by
    unfold sourceLayers
    split <;> simp [hsources]
  rw [layers, reservedLayer?, if_neg (by simp [hreserved]), hnone, List.append_nil] at hlayer
  obtain ⟨l, -, rfl⟩ := Option.map_eq_some_iff.mp (Option.mem_toList.mp hlayer)
  exact Layer.all_stored fun _ _ => rfl

theorem run_handOut_stored (v : View) (h : x.origin = .stored) (s : Store) :
    (v.handOut x).run s = (x.member, s) := by
  obtain ⟨m, origin⟩ := x
  cases h
  rfl

theorem run_mapM_handOut_stored (v : View) {xs : List Sighting}
    (h : ∀ x ∈ xs, x.origin = .stored) (s : Store) :
    (xs.mapM v.handOut).run s = (xs.map (·.member), s) := by
  induction xs with
  | nil => rfl
  | cons x rest ih =>
    rw [List.mapM_cons, StateT.run_bind, v.run_handOut_stored (h x List.mem_cons_self)]
    show ((rest.mapM v.handOut) >>= _).run s = _
    rw [StateT.run_bind, ih fun x hx => h x (List.mem_cons_of_mem _ hx)]
    rfl

theorem answersAlike_handOut? (v : View) {found : Option Sighting}
    (h : ∀ x, found = some x → x.origin = .stored) :
    s.AnswersAlike t (v.handOut? found) := by
  refine ⟨found.map (·.member), ?_, ?_⟩
  all_goals
    cases found with
    | none => rfl
    | some x =>
      obtain ⟨m, origin⟩ := x
      cases h _ rfl
      rfl

theorem find?_of_attached (hreserved : v.showsReserved = false) {name : String} {m : Member}
    (h : v.attached? s name = some m) : v.find? adapter s name = some ⟨m, .stored⟩ := by
  obtain ⟨l, hl, hm⟩ := Option.bind_eq_some_iff.mp h
  obtain ⟨hm, hadmits⟩ := Option.filter_eq_some_iff.mp hm
  have hstored : v.storedLayer? s = some (.stored (s.list l)) :=
    congrArg (Option.map fun l => Layer.stored (s.list l)) hl
  have hfound : (Layer.stored (s.list l)).find? name = some ⟨m, .stored⟩ :=
    congrArg (Option.map (Sighting.mk · .stored)) hm
  rw [find?, if_neg (by simp [hreserved]), hstored]
  simp [hfound, hadmits, Option.filter_some]

/-- The view of a member set shows what was in its list. -/
theorem seenAlike (hreserved : v.showsReserved = false) (hl : v.list? s = some l)
    (hobjects : t.objects = s.objects) (hlist : t.list l = s.list l) : v.SeenAlike s t := by
  have hl' : v.list? t = some l := (v.list?_congr hobjects).trans hl
  have hstored : v.storedLayer? t = v.storedLayer? s :=
    storedLayer?_congr hobjects fun k hk => by
      obtain rfl : l = k := Option.some.inj (hl.symm.trans hk)
      exact hlist
  have hattached (name : String) : v.attached? t name = v.attached? s name := by
    rw [attached?, attached?, hl, hl', Option.bind_some, Option.bind_some, hlist]
  have hnone (hsources : v.sources = []) (adapter : Adapter) (u : Store) :
      v.sourceLayers adapter u = [] := by
    unfold sourceLayers
    split <;> simp [hsources]
  have hfound {found : Store → Option Sighting} (hsame : found t = found s)
      (horigin : ∀ x, found s = some x → x.origin = .stored) :
      s.AnswersAlike t (get >>= fun u => v.handOut? (found u) : StateM Store (Option Member)) := by
    obtain ⟨answer, hs, ht⟩ := v.answersAlike_handOut? (t := t) horigin
    refine ⟨answer, hs, ?_⟩
    show (v.handOut? (found t)).run t = _
    rwa [hsame]
  refine ⟨hattached, fun adapter name h => ?_, fun adapter p h => ?_,
    fun adapter pattern types options h => ?_⟩
  · rcases h with h | h
    · refine hfound ?_ fun x hx => stored_of_shows hreserved h (.found hx)
      rw [find?, find?, hstored, hnone h, hnone h]
    · obtain ⟨m, hm⟩ := Option.isSome_iff_exists.mp h
      have hfind : v.find? adapter s name = some ⟨m, .stored⟩ := find?_of_attached hreserved hm
      rw [← hattached] at hm
      refine hfound ((find?_of_attached hreserved hm).trans hfind.symm) fun x hx => ?_
      rw [← Option.some.inj (hfind.symm.trans hx)]
  · refine hfound ?_ fun x hx => stored_of_shows hreserved h (.such hx)
    rw [firstSuch?, firstSuch?, hstored, hnone h, hnone h]
  · have hsame : v.sightings adapter t pattern types options =
        v.sightings adapter s pattern types options := by
      rw [sightings, sightings, union, union, layers, layers, hstored, hnone h, hnone h]
    have horigin : ∀ x ∈ v.sightings adapter s pattern types options, x.origin = .stored :=
      fun x hx => stored_of_shows hreserved h (.listed (List.mem_of_mem_filter hx))
    refine ⟨_, v.run_mapM_handOut_stored horigin s, ?_⟩
    show ((v.sightings adapter t pattern types options).mapM v.handOut).run t = _
    rw [hsame]
    exact v.run_mapM_handOut_stored horigin t

end View

theorem Member.run_value_stored {env : Environment} {m : Member} {c : CellId}
    (h : m.kind.cell? = some c) (s : Store) : (m.value env).run.run s = (.ok (s.cell c), s) := by
  have hkind : m.kind = .note c ∨ m.kind = .captured c := by
    unfold MemberKind.cell? at h
    split at h <;> cases h
    next hkind => exact .inl hkind
    next hkind => exact .inr hkind
  rcases hkind with hkind | hkind
  · exact run_value_note hkind
  · have hvalue : m.value env = m.valueItself env := by
      unfold value
      rw [hkind]
    rw [hvalue, valueItself, Store.run_read_then, hkind]
    rfl

/-- Who leaves the parts of a member alone leaves all as it was that is read through it. -/
theorem Store.SameParts.readsAlike {s t : Store} {m : Member} (hm : s.SameParts t m)
    (hobjects : t.objects = s.objects) : m.ReadsAlike s t where
  parts := hm
  contents := hm.contents
  includes _ := hm.includes_iff
  value inner hinner c hc env := by
    refine ⟨_, inner.run_value_stored hc s, ?_⟩
    rw [← (hm.included hinner).cell c (Store.spans_cell hc)]
    exact inner.run_value_stored hc t
  view inner hinner l hl := by
    obtain ⟨inherits, hkind⟩ := MemberKind.exists_memberSet_of_list? hl
    have hview : View.ofMember? s inner =
        some ⟨.set inner.name l (s.ownerOf inner) inherits inner.flags.reserved, .all⟩ := by
      rw [View.ofMember?, hkind]
    refine ⟨_, hview, ?_, fun mask => View.seenAlike rfl rfl hobjects
      ((hm.included hinner).list l (Store.spans_list hl))⟩
    rw [← hview]
    exact View.ofMember?_congr hobjects rfl rfl rfl rfl

end DynamicMembers
