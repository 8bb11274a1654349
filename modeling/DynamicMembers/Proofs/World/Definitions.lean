import DynamicMembers.Proofs.World.Calls

/-! # All members are well defined

A definition is checked before a member is made of it. But there are other ways to come by
a member: it is copied, read off a row of an adapter, or it is a grouping member; and
between its making and its use it may be marked, declared, put into a list or a value and
taken out again. None of these ways leads around the check: whoever holds a member of a
world that can be reached holds one that the check would let pass
(`World.Reachable.wellDefined`).

Members that are kept stay well defined whatever is done (`Store.WellDefined`), and so are
those that an operation brings to light (`Run.Defines`).
-/
namespace DynamicMembers

/-- The name and the kind of the member pass the check of definitions. -/
def Member.WellDefined (m : Member) : Prop := definitionFault? m.name m.kind = none

/-- All members that the store keeps are well defined. -/
structure Store.WellDefined (s : Store) : Prop where
  cells : ∀ c, ∀ m ∈ (s.cell c).members, m.WellDefined
  shelf : ∀ v ∈ s.shelf, ∀ m ∈ v.members, m.WellDefined
  lists : ∀ l, ∀ m ∈ (s.list l).members, m.WellDefined
  types : ∀ entry ∈ s.types, ∀ m ∈ entry.2.members, m.WellDefined

/-- All members that are kept or held are well defined. -/
structure World.WellDefined (w : World) : Prop where
  store : w.store.WellDefined
  members : ∀ m ∈ w.members, m.WellDefined

/-! ## Members -/

@[simp] theorem MemberKind.fault?_form (kind : MemberKind) : kind.form.fault? = kind.fault? := by
  unfold form
  split <;> rfl

namespace Member.WellDefined

variable {owner : Option ObjectId} {m other : Member}

theorem kind (hm : m.WellDefined) : m.kind.fault? = none := by
  unfold WellDefined definitionFault? at hm
  split at hm
  · cases hm
  · exact hm

theorem of_isCopy (hm : m.WellDefined) (h : m.IsCopy owner other) : other.WellDefined := by
  unfold WellDefined definitionFault? at hm ⊢
  rwa [h.name, ← other.kind.fault?_form, h.form, m.kind.fault?_form]

theorem setFlag (hm : m.WellDefined) (flag : MemberFlag) (on : Bool) :
    (m.setFlag flag on).WellDefined := hm

theorem reserved (o : ObjectId) (which : ReservedMember) :
    (Member.reserved o which).WellDefined := by
  have hname : isBlankText which.name = false := by cases which <;> decide +kernel
  have hkind : (Member.reserved o which).kind.fault? = none := by cases which <;> rfl
  exact (if_neg (by simp [Member.reserved, hname])).trans hkind

/-- A row with a blank name is no member, and there is nothing else to find fault with. -/
theorem of_row {row : AdapterRow} {tag : AdapterTag} {base : CellId}
    (h : row.toMember? tag base = some m) : m.WellDefined := by
  unfold AdapterRow.toMember? at h
  split at h
  · cases h
  next hname =>
    cases h
    refine (if_neg hname).trans ?_
    unfold AdapterRow.memberKind
    split <;> rfl

end Member.WellDefined

/-! ## Single writes -/

namespace Store.WellDefined

variable {s t : Store}

theorem initial {shelf : Array Value} (h : ∀ v ∈ shelf, v.members = []) :
    (Store.initial shelf).WellDefined where
  cells c := by simp [Store.cell, Store.initial, Store.empty, Value.members]
  shelf v hv := by simp [h v hv]
  lists l := by simp [Store.list, Store.initial, Store.empty, MemberList.members, MemberList.empty]
  types := by simp [Store.initial, Store.empty]

theorem frame (hs : s.WellDefined) (hcells : t.cells = s.cells) (hshelf : t.shelf = s.shelf)
    (hlists : t.lists = s.lists) (htypes : t.types = s.types) : t.WellDefined where
  cells c := by
    rw [Store.cell, hcells]
    exact hs.cells c
  shelf := hshelf ▸ hs.shelf
  lists l := by
    rw [Store.list, hlists]
    exact hs.lists l
  types := htypes ▸ hs.types

theorem addCell {v : Value} (hs : s.WellDefined) (hv : ∀ m ∈ v.members, m.WellDefined) :
    (s.after (Store.addCell v)).WellDefined where
  cells c := by
    show ∀ m ∈ ((s.cells.push v)[c.index]?.getD .null).members, m.WellDefined
    rw [Array.getElem?_push]
    split
    · exact hv
    · exact hs.cells c
  shelf := hs.shelf
  lists := hs.lists
  types := hs.types

theorem setCell {v : Value} (hs : s.WellDefined) (c : CellId)
    (hv : ∀ m ∈ v.members, m.WellDefined) : (s.setCell c v).WellDefined where
  cells k := by
    rw [Store.cell, Store.setCell, Array.getElem?_setIfInBounds]
    split
    · split
      · exact hv
      · simp [Value.members]
    · exact hs.cells k
  shelf := hs.shelf
  lists := hs.lists
  types := hs.types

theorem addList {l : MemberList} (hs : s.WellDefined) (hl : ∀ m ∈ l.members, m.WellDefined) :
    (s.after (Store.addList l)).WellDefined where
  cells := hs.cells
  shelf := hs.shelf
  lists := forall_list_addList (Q := fun l => ∀ m ∈ l.members, m.WellDefined) hs.lists hl
  types := hs.types

theorem setList {members : MemberList} (hs : s.WellDefined) (l : ListId)
    (hm : ∀ m ∈ members.members, m.WellDefined) : (s.setList l members).WellDefined where
  cells := hs.cells
  shelf := hs.shelf
  lists := forall_list_setList (Q := fun l => ∀ m ∈ l.members, m.WellDefined)
    (List.forall_mem_nil _) hs.lists l hm
  types := hs.types

theorem setTypes {types : TypeTable} (hs : s.WellDefined)
    (h : ∀ entry ∈ types, ∀ m ∈ entry.2.members, m.WellDefined) :
    ({ s with types := types } : Store).WellDefined :=
  { hs with types := h }

theorem wrapAs {v : Value} (hs : s.WellDefined) (hv : ∀ m ∈ v.members, m.WellDefined)
    (typeNames : List String) : (s.after (Store.wrapAs v typeNames)).WellDefined :=
  ((hs.addCell hv).addList (l := .empty) (List.forall_mem_nil _)).frame rfl rfl rfl rfl

/-! ## Copies -/

/-- The values and members that a copy is made of are there already. -/
theorem copyFor (hs : s.WellDefined) (owner : Option ObjectId) (m : Member) :
    (s.after (Store.copyFor owner m)).WellDefined := by
  refine invariant_copyFor (I := Store.WellDefined) (fun c hs => hs.addCell (hs.cells c))
    (fun hs => hs.frame rfl rfl rfl rfl) (fun {s t l owner copies} hs ht hcopies => ?_) owner m hs
  refine ht.addList fun m hm => ?_
  obtain ⟨other, hother, rfl⟩ := List.mem_map.mp hm
  obtain ⟨entry, hentry, -, hcopy⟩ := exists_mem_of_forall₂ hcopies hother
  exact (hs.lists l entry.2 (List.mem_map_of_mem hentry)).of_isCopy hcopy

theorem handOut (hs : s.WellDefined) (v : View) (x : Sighting) :
    (s.after (v.handOut x)).WellDefined := by
  unfold View.handOut
  split
  · exact hs.frame rfl rfl rfl rfl
  · exact hs
  · exact hs
  · exact hs.copyFor _ _
  · exact hs.copyFor _ _

theorem of_draws {adapter : Adapter} {v : View} {x : Sighting} (hs : s.WellDefined)
    (hx : v.Draws adapter s x) : x.member.WellDefined := by
  cases hx with
  | reserved => exact .reserved _ _
  | stored hl hm => exact hs.lists _ _ hm
  | inherited ho hstate hm => exact hs.lists _ _ hm
  | declared ho hentry hm => exact hs.types _ hentry _ hm
  | supplied ho hstate hrow => exact .of_row hrow

end Store.WellDefined

/-! ## Operations -/

/-- The members of a store stay well defined, also if the operation fails; of what comes of a
success something is true. -/
def Run.Defines {ε α : Type} (x : Run ε α) (G : α → Prop) : Prop :=
  ∀ s : Store, s.WellDefined → (s.after x.run).WellDefined ∧ ∀ a, (x.run.run s).1 = .ok a → G a

namespace Run.Defines

variable {ε δ α β : Type} {G : α → Prop} {H : β → Prop}

theorem ok {a : α} (h : G a) : Defines (pure a : Run ε α) G :=
  fun _ hs => ⟨hs, fun _ ha => by cases ha; exact h⟩

theorem throw (failure : ε) : Defines (MonadExcept.throw failure : Run ε α) G :=
  fun _ hs => ⟨hs, fun _ ha => by cases ha⟩

theorem lift {x : StateM Store α} (h : ∀ s : Store, s.WellDefined → (s.after x).WellDefined) :
    Defines (liftM x : Run ε α) fun _ => True :=
  fun s hs => ⟨h s hs, fun _ _ => trivial⟩

theorem write {f : Store → Store} (h : ∀ s : Store, s.WellDefined → (f s).WellDefined) :
    Defines (modify f : Run ε PUnit) fun _ => True :=
  fun s hs => ⟨h s hs, fun _ _ => trivial⟩

theorem andThen {x : Run ε α} {f : α → Run ε β} (hx : x.Defines G)
    (hf : ∀ a, G a → (f a).Defines H) : Defines (x >>= f) H := by
  intro s hs
  obtain ⟨ht, hG⟩ := hx s hs
  obtain ⟨outcome, t, hrun⟩ : ∃ outcome t, x.run.run s = (outcome, t) := ⟨_, _, rfl⟩
  rw [Store.after, hrun] at ht
  rw [hrun] at hG
  cases outcome with
  | error failure =>
    rw [Store.after, Store.run_then_of_error hrun]
    exact ⟨ht, fun _ h => by cases h⟩
  | ok a =>
    rw [Store.after, Store.run_then_of_ok hrun]
    exact hf a (hG a rfl) t ht

theorem mapFailure {x : Run ε α} (f : ε → δ) (hx : x.Defines G) : (x.mapFailure f).Defines G := by
  intro s hs
  obtain ⟨ht, hG⟩ := hx s hs
  refine ⟨ht, fun a ha => ?_⟩
  obtain ⟨outcome, t, hrun⟩ : ∃ outcome t, x.run.run s = (outcome, t) := ⟨_, _, rfl⟩
  rw [Store.run_mapFailure, hrun] at ha
  rw [hrun] at hG
  cases outcome with
  | error failure => cases ha
  | ok b =>
    cases ha
    exact hG _ rfl

end Run.Defines

/-- This is the check that all others go back to. -/
theorem Member.defines_define (name : String) (kind : MemberKind) :
    (define name kind).Defines WellDefined := by
  unfold define
  split
  · exact .throw _
  next hfault =>
    intro s hs
    refine ⟨hs.frame rfl rfl rfl rfl, fun m hm => ?_⟩
    cases hm
    exact hfault

namespace View

theorem defines_add (v : View) {m : Member} (hm : m.WellDefined) (vouched : Bool) :
    (v.add m vouched).Defines Member.WellDefined := by
  intro s hs
  rcases v.add_cases m vouched s with ⟨refusal, hrun⟩ |
    ⟨l, copy, u, replaced, members, announced, -, hcopy, hadd, hrun⟩
  · rw [Store.after, hrun]
    exact ⟨hs, fun _ h => by cases h⟩
  · have hu := hs.copyFor (v.owner?.or m.owner) m
    have hmade := hm.of_isCopy (Store.isCopy_copyFor (v.owner?.or m.owner) m s)
    rw [Store.after, hcopy] at hu
    rw [hcopy] at hmade
    have hset : (u.setList l members).WellDefined := by
      refine hu.setList l fun other hother => ?_
      rcases (MemberList.members_of_add hadd).2 other hother with rfl | hold
      · exact hmade
      · exact hu.lists l other hold
    rw [Store.after, hrun]
    refine ⟨hset.frame rfl rfl rfl rfl, fun other h => ?_⟩
    cases h
    exact hmade

theorem defines_remove (v : View) (name : String) :
    (v.remove name).Defines fun removed => ∀ m ∈ removed, m.WellDefined := by
  intro s hs
  rcases v.run_remove name s with ⟨outcome, hrun, hnone⟩ |
    ⟨l, removed, members, -, hremove, hrun⟩
  · rw [Store.after, hrun]
    refine ⟨hs, fun removed h => ?_⟩
    rw [hnone removed h]
    simp
  · obtain ⟨hsubset, hremoved⟩ := MemberList.members_of_remove hremove
    rw [Store.after, hrun]
    refine ⟨hs.setList l fun m hm => hs.lists l m (hsubset hm), fun other h => ?_⟩
    cases h
    exact fun m hm => hs.lists l m (hremoved m hm)

end View

theorem Store.defines_declare (typeName : String) {m : Member} (hm : m.WellDefined) :
    (Store.declare typeName m).Defines fun _ => True := by
  intro s hs
  refine ⟨?_, fun _ _ => trivial⟩
  rw [Store.declare, Store.after_read_then]
  split
  · exact hs
  next types hdeclare =>
    exact hs.setTypes (TypeTable.forall_of_declare hdeclare hs.types (hm.setFlag .attached false))

/-! ## Loads -/

namespace MemberDeclaration
open Run.Defines

variable (env : Environment)

theorem defines_loadScript (text : String) :
    (loadScript env text).Defines fun _ => True := by
  unfold loadScript
  split
  · exact lift fun s hs => hs.frame rfl rfl rfl rfl
  · exact throw _

theorem defines_findCode (name : String) : (findCode env name).Defines fun _ => True := by
  unfold findCode
  split
  · exact ok trivial
  · exact throw _

theorem defines_optional {α : Type} {load : String → Run DeclarationFault α}
    (h : ∀ text, (load text).Defines fun _ => True) (text : Option String) :
    Run.Defines (text.mapM load) fun _ => True := by
  cases text with
  | none => exact ok trivial
  | some text => exact (h text).andThen fun _ _ => ok trivial

mutual

/-- Nothing is said of the kind: it is checked when the member is made. -/
theorem defines_loadKind : ∀ kind : DeclaredKind, (∀ v ∈ kind.values, v.members = []) →
    (loadKind env kind).Defines fun _ => True
  | .note v, h => by
    unfold loadKind
    have hv : v.members = [] := h v (by simp [DeclaredKind.values])
    exact (lift fun s hs => hs.addCell (by simp [hv])).andThen fun _ _ => ok trivial
  | .aliasOf reference conversion, _ => by
    unfold loadKind
    exact ok trivial
  | .script getter setter, _ => by
    unfold loadKind
    exact (defines_optional (defines_loadScript env) getter).andThen fun _ _ =>
      (defines_optional (defines_loadScript env) setter).andThen fun _ _ => ok trivial
  | .code getter setter, _ => by
    unfold loadKind
    exact (defines_optional (defines_findCode env) getter).andThen fun _ _ =>
      (defines_optional (defines_findCode env) setter).andThen fun _ _ => ok trivial
  | .scriptMethod text, _ => by
    unfold loadKind
    exact (defines_loadScript env text).andThen fun _ _ => ok trivial
  | .codeMethod name, _ => by
    unfold loadKind
    exact (defines_findCode env name).andThen fun _ _ => ok trivial
  | .propertySet references, _ => by
    unfold loadKind
    exact ok trivial
  | .memberSet inherits members, h => by
    unfold loadKind
    refine (defines_loadAll members h).andThen fun loaded hloaded => ?_
    cases hl : MemberList.ofMembers loaded with
    | error refusal => exact throw _
    | ok l =>
      exact (lift fun s hs => hs.addList fun m hm =>
        hloaded m (MemberList.mem_of_ofMembers hl m hm)).andThen fun _ _ => ok trivial

theorem defines_load : ∀ declaration : MemberDeclaration,
    (∀ v ∈ declaration.values, v.members = []) →
    (load env declaration).Defines Member.WellDefined
  | .declare name hidden kind, h => by
    unfold load
    refine (defines_loadKind kind h).andThen fun made _ =>
      ((Member.defines_define name made).mapFailure _).andThen fun m hm => ok ?_
    unfold hide
    split
    · exact hm.setFlag .hidden true
    · exact hm

theorem defines_loadAll : ∀ declarations : List MemberDeclaration,
    (∀ v ∈ allValues declarations, v.members = []) →
    (loadAll env declarations).Defines fun loaded => ∀ m ∈ loaded, m.WellDefined
  | [], _ => by
    unfold loadAll
    exact ok (List.forall_mem_nil _)
  | declaration :: rest, h => by
    unfold loadAll
    obtain ⟨hfirst, hrest⟩ := List.forall_mem_append.mp h
    exact ((defines_load declaration hfirst).mapFailure _).andThen fun first hm =>
      (defines_loadAll rest hrest).andThen fun others hothers =>
        ok (List.forall_mem_cons.mpr ⟨hm, hothers⟩)

end

end MemberDeclaration

namespace TypeDeclaration
open Run.Defines

variable (env : Environment)

theorem defines_declareAll (typeName : String) {members : List Member}
    (hm : ∀ m ∈ members, m.WellDefined) : (declareAll typeName members).Defines fun _ => True := by
  induction members with
  | nil => exact ok trivial
  | cons m rest ih =>
    obtain ⟨hfirst, hrest⟩ := List.forall_mem_cons.mp hm
    exact ((Store.defines_declare typeName hfirst).mapFailure _).andThen fun _ _ => ih hrest

theorem defines_load {declaration : TypeDeclaration}
    (h : ∀ v ∈ MemberDeclaration.allValues declaration.members, v.members = []) :
    (declaration.load env).Defines fun _ => True :=
  (MemberDeclaration.defines_loadAll env declaration.members h).andThen fun _ hm =>
    (write fun _ hs => hs.setTypes (TypeTable.forall_declareType hs.types declaration.name)).andThen
      fun _ _ => defines_declareAll declaration.name hm

theorem defines_loadAll {declarations : List TypeDeclaration}
    (h : ∀ declaration ∈ declarations,
      ∀ v ∈ MemberDeclaration.allValues declaration.members, v.members = []) :
    (loadAll env declarations).Defines fun _ => True := by
  induction declarations with
  | nil => exact ok trivial
  | cons declaration rest ih =>
    obtain ⟨hfirst, hrest⟩ := List.forall_mem_cons.mp h
    exact ((defines_load env hfirst).mapFailure _).andThen fun _ _ => ih hrest

end TypeDeclaration

/-- No document gets a member past the check. -/
theorem Environment.defines_loadTypes (env : Environment) (text : String) :
    (env.loadTypes text).Defines fun _ => True := by
  unfold loadTypes
  split
  next declarations h =>
    exact TypeDeclaration.defines_loadAll env (TypeDeclaration.values_of_ofDocument? h)
  next => exact .throw _

/-! ## Runs -/

namespace World

variable {w w' v : World}

theorem mem_returned {ε α : Type} {outcome : Except ε α} {a : α} :
    a ∈ returned outcome ↔ outcome = .ok a := by
  cases outcome <;> simp [returned, eq_comm]

namespace WellDefined

theorem knows (hw : w.WellDefined) {v : Value} (hv : w.Knows v) :
    ∀ m ∈ v.members, m.WellDefined :=
  fun m hm => hw.members m (hv m hm)

theorem withStore (hw : w.WellDefined) {t : Store} (ht : t.WellDefined) :
    (w.withStore t).WellDefined :=
  ⟨ht, hw.members⟩

theorem hold (hw : w.WellDefined) {members : List Member} (hm : ∀ m ∈ members, m.WellDefined) :
    ({ w with members := members ++ w.members } : World).WellDefined :=
  ⟨hw.store, fun m h => (List.mem_append.mp h).elim (hm m) (hw.members m)⟩

theorem gain {α : Type} (hw : w.WellDefined) {x : StateM Store α} {got : α → List Member}
    (ht : (w.store.after x).WellDefined) (hm : ∀ m ∈ got (x.run w.store).1, m.WellDefined) :
    (w.gain x got).WellDefined :=
  (hw.withStore ht).hold hm

theorem get {adapter : Adapter} {view : View} {xs : List Sighting} (hw : w.WellDefined)
    (hx : ∀ x ∈ xs, view.Shows adapter w.store x) :
    (w.gain (xs.mapM view.handOut) id).WellDefined := by
  obtain ⟨hcopies, hafter⟩ := Store.mapM_forall₂ (P := Store.WellDefined)
    (Q := fun (x : Sighting) m => x.member.IsCopy (view.ownerFor x) m) (f := view.handOut)
    (fun x t ht => ⟨view.isCopy_handOut x t, ht.handOut view x⟩) xs hw.store
  refine hw.gain hafter fun m hm => ?_
  obtain ⟨x, hmem, hcopy⟩ := exists_mem_of_forall₂ hcopies hm
  exact (hw.store.of_draws (View.draws_of_shows (hx x hmem))).of_isCopy hcopy

end WellDefined

/-- No deed leads around the check. -/
theorem Deed.wellDefined {sharing : Bool} (hw : w.WellDefined) (h : Deed sharing w w') :
    w'.WellDefined := by
  cases h with
  | keep hv => exact ⟨hw.store.addCell (hw.knows hv), hw.members⟩
  | share hv => exact ⟨hw.store.addCell (hw.knows hv), hw.members⟩
  | write script h => exact ⟨hw.store.frame rfl rfl rfl rfl, hw.members⟩
  | group hm h inherits =>
    exact ⟨hw.store.addList fun m hml =>
      hw.members m (hm m (MemberList.mem_of_ofMembers h m hml)), hw.members⟩
  | @define kind name hk =>
    obtain ⟨ht, hmade⟩ := Member.defines_define name kind w.store hw.store
    exact hw.gain ht fun m hm => hmade m (mem_returned.mp hm)
  | @copy m owner hm ho =>
    refine hw.gain (hw.store.copyFor owner m) (List.forall_mem_singleton.mpr ?_)
    exact (hw.members m hm).of_isCopy (Store.isCopy_copyFor owner m w.store)
  | @setFlag m hm flag on =>
    exact hw.hold (List.forall_mem_singleton.mpr ((hw.members m hm).setFlag flag on))
  | get hv hx => exact hw.get hx
  | @add view m hv hm vouched =>
    obtain ⟨ht, hmade⟩ := view.defines_add (hw.members m hm) vouched w.store hw.store
    exact hw.gain ht fun m hm => hmade m (mem_returned.mp hm)
  | @remove view hv name =>
    obtain ⟨ht, hremoved⟩ := view.defines_remove name w.store hw.store
    refine hw.gain ht fun m hm => ?_
    obtain ⟨removed, houtcome, hm⟩ := List.mem_flatMap.mp hm
    exact hremoved removed (mem_returned.mp houtcome) m (Option.mem_toList.mp hm)
  | setCell hc hv => exact hw.withStore (hw.store.setCell _ (hw.knows hv))
  | setShelf hv => exact hw.withStore { hw.store with shelf := fun v h => hw.knows (hv v h) }
  | readCell c => exact hw.hold (hw.store.cells c)
  | readShelf hv => exact hw.hold (hw.store.shelf _ hv)
  | wrap hv typeNames => exact hw.withStore (hw.store.wrapAs (hw.knows hv) typeNames)
  | insertTypeName o name =>
    rcases w.store.insertTypeName_cases o name with hsame | ⟨old, state, -, -, hset⟩
    · rwa [hsame]
    · rw [hset]
      exact hw.withStore (hw.store.frame rfl rfl rfl rfl)
  | release o =>
    rcases w.store.release_cases o with hsame | ⟨old, state, -, -, hset⟩
    · rwa [hsame]
    · rw [hset]
      exact hw.withStore (hw.store.frame rfl rfl rfl rfl)
  | checkOut | checkIn | logMode | takeModes | takeAnnounced =>
    exact hw.withStore (hw.store.frame rfl rfl rfl rfl)

theorem Change.wellDefined (hw : w.WellDefined) (h : Change w w') : w'.WellDefined := by
  cases h with
  | deed h => exact h.wellDefined hw
  | declareType name =>
    exact hw.withStore (hw.store.setTypes (TypeTable.forall_declareType hw.store.types name))
  | @declare m hm typeName =>
    exact hw.withStore (Store.defines_declare typeName (hw.members m hm) w.store hw.store).1
  | load env text => exact hw.withStore (env.defines_loadTypes text w.store hw.store).1

/-- Whatever has been done, all members pass the check of definitions. -/
theorem Reachable.wellDefined (hw : w.Reachable) : w.WellDefined :=
  hw.induction (fun hshelf => ⟨.initial hshelf, List.forall_mem_nil _⟩)
    (fun _ hw h => h.wellDefined hw) fun hcovers hv =>
      ⟨hcovers.store ▸ hv.store, fun m hm => hv.members m (hcovers.members hm)⟩

end World

end DynamicMembers
