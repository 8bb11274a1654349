import DynamicMembers.Proofs.World.Soundness

/-! # Loads respect a ledger

All parts that a load makes are the declarations'. So members that are loaded share
nothing with those that anyone holds, and a type table in which all members were loaded
is isolated (`Store.Isolated`); what is declared by hand still shares its parts with the
member that it was declared from.
-/
namespace DynamicMembers

/-! ## Types -/

namespace TypeTable

variable {P : Member → Prop} {table types : TypeTable} {typeName : String} {m : Member}

theorem forall_declareType (h : ∀ entry ∈ table, ∀ m ∈ entry.2.members, P m) (typeName : String) :
    ∀ entry ∈ table.declareType typeName, ∀ m ∈ entry.2.members, P m := by
  intro entry hentry
  unfold declareType at hentry
  split at hentry
  · exact h entry hentry
  · rcases NameMap.mem_insert hentry with hold | ⟨-, hempty⟩
    · exact h entry hold
    · simp [hempty, MemberList.members, MemberList.empty]

theorem exists_of_typeMembers (h : m ∈ table.typeMembers typeName) :
    ∃ entry ∈ table, m ∈ entry.2.members := by
  unfold typeMembers at h
  split at h
  next hlookup =>
    obtain ⟨entry, hentry, rfl⟩ := NameMap.exists_mem_of_lookup hlookup
    exact ⟨entry, hentry, h⟩
  next => cases h

theorem forall_of_declare (hdeclare : table.declare typeName m = .ok types)
    (h : ∀ entry ∈ table, ∀ m ∈ entry.2.members, P m) (hm : P (m.setFlag .attached false)) :
    ∀ entry ∈ types, ∀ m ∈ entry.2.members, P m := by
  obtain ⟨l, rfl, -, hothers⟩ := exists_list_of_declare hdeclare
  intro entry hentry other hother
  rcases NameMap.mem_insert hentry with hold | ⟨-, rfl⟩
  · exact h entry hold other hother
  · rcases hothers other hother with rfl | hold
    · exact hm
    · obtain ⟨entry, hentry, hother⟩ := exists_of_typeMembers hold
      exact h entry hentry other hother

end TypeTable

/-- No member that is declared has parts that anyone else has. -/
def Store.Isolated (Γ : Ledger) (s : Store) : Prop :=
  ∀ entry ∈ s.types, ∀ m ∈ entry.2.members, m.Fits Γ s .template

section

variable {Γ Δ : Ledger} {s t : Store} {m : Member}

theorem Store.Isolated.onward (hs : s.Isolated Γ) (ht : s.Onward t) (htypes : t.types = s.types) :
    t.Isolated Γ :=
  fun entry hentry m hm => (hs entry (htypes ▸ hentry) m hm).onward ht

theorem Store.Isolated.agree (hs : s.Isolated Γ) (hΔ : Γ.Agrees Δ s) : s.Isolated Δ :=
  fun entry hentry m hm => (hs entry hentry m hm).agree hΔ

theorem Member.Fits.setFlag {h : Holder} (hm : m.Fits Γ s h) (flag : MemberFlag) (on : Bool) :
    (m.setFlag flag on).Fits Γ s h :=
  ⟨hm.kind, hm.id, hm.owner⟩

theorem Member.template_of_fits (hm : m.Fits Γ s .template ∨ m.Genuine Γ s) :
    (m.setFlag .attached false).Template Γ s :=
  ⟨hm.imp (·.setFlag .attached false) (·.of_same rfl rfl rfl), rfl⟩

end

/-! ## Members -/

/-- The store has got more, and may have got more types. -/
structure Store.Loaded (Γ : Ledger) (s t : Store) : Prop where
  keeps : Keeps (fun _ => True) s t
  objects : t.objects = s.objects
  sound : t.Sound Γ
  isolated : s.Isolated Γ → t.Isolated Γ

/-- A load that respects the ledger if all that is made is the declarations', and of whose result
something is true. -/
def Run.Loads {ε α : Type} (Γ : Ledger) (s : Store) (x : Run ε α) (G : Store → α → Prop) : Prop :=
  s.Sound Γ → Γ.Awaits s .template → ∃ outcome t, x.run.run s = (outcome, t) ∧ s.Loaded Γ t ∧
    ∀ a, outcome = .ok a → G t a

section

variable {Γ : Ledger} {s t u : Store}

namespace Store.Loaded

theorem onward (h : s.Loaded Γ t) : s.Onward t := .of_same (h.keeps.has trivial) h.objects

theorem trans (h : s.Loaded Γ t) (hrest : t.Loaded Γ u) : s.Loaded Γ u where
  keeps := h.keeps.trans hrest.keeps
  objects := hrest.objects.trans h.objects
  sound := hrest.sound
  isolated hs := hrest.isolated (h.isolated hs)

theorem of_enlarges (h : s.Enlarges t) (ht : t.Sound Γ) : s.Loaded Γ t :=
  ⟨h.keeps, h.objects, ht, fun hs => hs.onward (.of_enlarges h) h.types⟩

end Store.Loaded

namespace Run.Loads

variable {ε δ α β : Type} {G : Store → α → Prop} {H : Store → β → Prop}

theorem ok {a : α} (h : G s a) : Loads Γ s (pure a : Run ε α) G := fun hs _ =>
  ⟨_, _, rfl, ⟨.refl s, rfl, hs, id⟩, fun _ h' => by cases h'; exact h⟩

theorem throw (failure : ε) : Loads Γ s (MonadExcept.throw failure : Run ε α) G := fun hs _ =>
  ⟨_, _, rfl, ⟨.refl s, rfl, hs, id⟩, fun _ h => by cases h⟩

theorem andThen {x : Run ε α} {f : α → Run ε β} (hx : Loads Γ s x G)
    (hf : ∀ a t, s.Loaded Γ t → G t a → Loads Γ t (f a) H) : Loads Γ s (x >>= f) H := by
  intro hs hΓ
  obtain ⟨outcome, t, hrun, ht, hG⟩ := hx hs hΓ
  cases outcome with
  | error failure =>
    exact ⟨_, _, Store.run_then_of_error hrun, ht, fun _ h => by cases h⟩
  | ok a =>
    obtain ⟨outcome, u, hrest, hu, hH⟩ := hf a t ht (hG a rfl) ht.sound (hΓ.onward ht.onward)
    exact ⟨outcome, u, (Store.run_then_of_ok hrun).trans hrest, ht.trans hu, hH⟩

theorem mapFailure {x : Run ε α} (f : ε → δ) (hx : Loads Γ s x G) :
    Loads Γ s (x.mapFailure f) G := by
  intro hs hΓ
  obtain ⟨outcome, t, hrun, ht, hG⟩ := hx hs hΓ
  refine ⟨outcome.mapError f, t, by rw [Store.run_mapFailure, hrun], ht, fun a h => ?_⟩
  cases outcome with
  | error failure => cases h
  | ok a =>
    cases h
    exact hG a rfl

end Run.Loads

end

namespace MemberDeclaration
open Run.Loads

variable {Γ : Ledger} (env : Environment)

def AllFit (Γ : Ledger) (t : Store) (members : List Member) : Prop :=
  ∀ m ∈ members, m.Fits Γ t .template

theorem fits_of_nothing {kind : MemberKind} {s : Store} {h : Holder} (hcell : kind.cell? = none)
    (hlist : kind.list? = none) (hshared : kind.sharedCell? = none) (hscripts : kind.scripts = []) :
    kind.Fits Γ s h :=
  ⟨by simp [MemberKind.own_eq_nil hcell hlist], by simp [hshared], by simp [hscripts]⟩

def FitScript (Γ : Ledger) (t : Store) (i : ScriptId) : Prop :=
  t.Has (.script i) ∧ Γ (.script i) = .template

theorem loads_loadScript (s : Store) (text : String) :
    (loadScript env text).Loads Γ s (FitScript Γ) := by
  unfold loadScript
  split
  · intro hs hΓ
    have hhas {p : Part} (hp : s.Has p) :
        ({ s with scripts := s.scripts.push ⟨text, none, none⟩ } : Store).Has p := by
      cases p with
      | script i => exact Nat.lt_of_lt_of_eq (Nat.lt_succ_of_lt hp) (Array.size_push _).symm
      | _ => exact hp
    refine ⟨_, _, rfl, ⟨⟨fun _ => hhas, fun _ _ => rfl, fun _ _ => rfl⟩, rfl,
      hs.addScript (by simp), fun h => h.onward (.of_same hhas rfl) rfl⟩, fun i hi => ?_⟩
    cases hi
    exact ⟨Nat.lt_of_lt_of_eq (Nat.lt_succ_self _) (Array.size_push _).symm,
      hΓ _ (Nat.lt_irrefl s.scripts.size)⟩
  · exact throw _

theorem loads_findCode (s : Store) (name : String) :
    (findCode env name).Loads Γ s fun _ _ => True := by
  unfold findCode
  split
  · exact ok trivial
  · exact throw _

theorem loads_optional {α : Type} {load : String → Run DeclarationFault α} {G : Store → α → Prop}
    {s : Store} (h : ∀ text, (load text).Loads Γ s G) (text : Option String) :
    (text.mapM load).Loads Γ s fun t found => ∀ a ∈ found, G t a := by
  cases text with
  | none => exact ok (by simp)
  | some text =>
    exact (h text).andThen fun a t _ hG => ok (by simpa using hG)

theorem fits_script {s : Store} {getter setter : Option ScriptId}
    (hgetter : ∀ i ∈ getter, FitScript Γ s i) (hsetter : ∀ i ∈ setter, FitScript Γ s i) :
    (MemberKind.script getter setter policy).Fits Γ s .template := by
  refine ⟨by simp [MemberKind.own, MemberKind.cell?, MemberKind.list?],
    by simp [MemberKind.sharedCell?], fun script h => ?_⟩
  obtain ⟨i, hi, rfl⟩ := List.mem_map.mp h
  obtain ⟨hthere, hdeclared⟩ : FitScript Γ s i := (List.mem_append.mp hi).elim
    (fun hi => hgetter i (Option.mem_toList.mp hi)) fun hi => hsetter i (Option.mem_toList.mp hi)
  exact ⟨hthere, fun _ => .inl rfl, fun _ => hdeclared⟩

mutual

theorem loads_loadKind (s : Store) : ∀ kind : DeclaredKind, (∀ v ∈ kind.values, v.members = []) →
    (loadKind env kind).Loads Γ s fun t made => made.Fits Γ t .template
  | .note v, h => by
    unfold loadKind
    intro hs hΓ
    have hv : s.Vouches Γ v := by simp [Store.Vouches, h v (by simp [DeclaredKind.values])]
    refine ⟨_, _, rfl, .of_enlarges (Store.enlarges_addCell v s) (hs.addCell hv),
      fun made hmade => ?_⟩
    cases hmade
    exact ⟨by simpa [MemberKind.own, MemberKind.cell?, MemberKind.list?] using
      ⟨Store.has_addCell_self s v, hΓ _ (Nat.lt_irrefl s.cells.size)⟩, nofun, nofun⟩
  | .aliasOf reference conversion, _ => by
    unfold loadKind
    exact ok (fits_of_nothing rfl rfl rfl rfl)
  | .script getter setter, _ => by
    unfold loadKind
    refine (loads_optional (loads_loadScript env s) getter).andThen fun getter t _ hgetter => ?_
    refine (loads_optional (loads_loadScript env t) setter).andThen fun setter u hu hsetter => ?_
    exact ok (fits_script (fun i hi => ⟨hu.onward.has (hgetter i hi).1, (hgetter i hi).2⟩) hsetter)
  | .code getter setter, _ => by
    unfold loadKind
    refine (loads_optional (loads_findCode env s) getter).andThen fun getter t _ _ => ?_
    refine (loads_optional (loads_findCode env t) setter).andThen fun setter u _ _ => ?_
    exact ok (fits_of_nothing rfl rfl rfl rfl)
  | .scriptMethod text, _ => by
    unfold loadKind
    refine (loads_loadScript env s text).andThen fun i t _ hi => ok ?_
    exact ⟨by simp [MemberKind.own, MemberKind.cell?, MemberKind.list?], nofun,
      List.forall_mem_singleton.mpr ⟨hi.1, fun _ => .inl rfl, fun _ => hi.2⟩⟩
  | .codeMethod name, _ => by
    unfold loadKind
    exact (loads_findCode env s name).andThen fun _ _ _ _ => ok (fits_of_nothing rfl rfl rfl rfl)
  | .propertySet references, _ => by
    unfold loadKind
    exact ok (fits_of_nothing rfl rfl rfl rfl)
  | .memberSet inherits members, h => by
    unfold loadKind
    refine (loads_loadAll s members h).andThen fun loaded t _ hloaded => ?_
    cases hl : MemberList.ofMembers loaded with
    | error refusal => exact throw _
    | ok l =>
      intro ht hΓ
      have hlist : Γ (.list ⟨t.lists.size⟩) = .template := hΓ _ (Nat.lt_irrefl t.lists.size)
      have hsound : (t.after (Store.addList l)).Sound Γ := by
        refine ht.addList fun m hm => ?_
        rw [hlist]
        exact hloaded m (MemberList.mem_of_ofMembers hl m hm)
      refine ⟨_, _, rfl, .of_enlarges (Store.enlarges_addList l t) hsound, fun made hmade => ?_⟩
      cases hmade
      exact ⟨by simpa [MemberKind.own, MemberKind.cell?, MemberKind.list?] using
        ⟨Store.has_addList_self t l, hlist⟩, nofun, nofun⟩

theorem loads_load (s : Store) : ∀ declaration : MemberDeclaration,
    (∀ v ∈ declaration.values, v.members = []) →
    (load env declaration).Loads Γ s fun t m => m.Fits Γ t .template
  | .declare name hidden kind, h => by
    unfold load
    refine (loads_loadKind s kind h).andThen fun made t _ hmade => ?_
    refine andThen (G := fun u (m : Member) => m.Fits Γ u .template) (mapFailure _ ?_)
      fun m u _ hm => ok ?_
    · unfold Member.define
      split
      · exact throw _
      · intro ht hΓ
        have hu := Store.enlarges_nextMemberId t
        refine ⟨_, _, rfl, .of_enlarges hu ht.nextMemberId, fun m hm => ?_⟩
        cases hm
        exact ⟨hmade.onward (.of_enlarges hu),
          ⟨Nat.lt_succ_self t.made, hΓ _ (Nat.lt_irrefl t.made)⟩, nofun⟩
    · unfold hide
      split
      · exact hm.setFlag .hidden true
      · exact hm

theorem loads_loadAll (s : Store) : ∀ declarations : List MemberDeclaration,
    (∀ v ∈ allValues declarations, v.members = []) →
    (loadAll env declarations).Loads Γ s (AllFit Γ)
  | [], _ => by
    unfold loadAll
    exact ok (by simp [AllFit])
  | declaration :: rest, h => by
    unfold loadAll
    have hvalues := List.forall_mem_append.mp h
    refine (mapFailure _ (loads_load s declaration hvalues.1)).andThen fun first t _ hfirst => ?_
    refine (loads_loadAll t rest hvalues.2).andThen fun others u hu hothers => ok ?_
    exact List.forall_mem_cons.mpr ⟨hfirst.onward hu.onward, hothers⟩

end

end MemberDeclaration

/-! ## Types -/

namespace TypeDeclaration
open Run.Loads

variable {Γ : Ledger} {s : Store} (env : Environment)

theorem loaded_setTypes {types : TypeTable} (hs : s.Sound Γ)
    (htemplates : ∀ entry ∈ types, ∀ m ∈ entry.2.members, m.Template Γ s)
    (hisolated : s.Isolated Γ → ∀ entry ∈ types, ∀ m ∈ entry.2.members, m.Fits Γ s .template) :
    s.Loaded Γ { s with types := types } where
  keeps := .of_same rfl rfl (Nat.le_refl _) (Nat.le_refl _)
  objects := rfl
  sound := hs.setTypes htemplates
  isolated h := fun entry hentry m hm => (hisolated h entry hentry m hm).onward
    (.of_same (fun {p} => by cases p <;> exact id) rfl)

theorem loads_declareAll (typeName : String) {members : List Member}
    (hm : MemberDeclaration.AllFit Γ s members) :
    (declareAll typeName members).Loads Γ s fun _ _ => True := by
  induction members generalizing s with
  | nil => exact ok trivial
  | cons m rest ih =>
    obtain ⟨hfirst, hrest⟩ := List.forall_mem_cons.mp hm
    refine andThen (G := fun _ _ => True) (mapFailure _ fun hs _ => ?_) fun _ t ht _ =>
      ih fun m hm => (hrest m hm).onward ht.onward
    cases hdeclare : s.types.declare typeName m with
    | error refusal =>
      refine ⟨.error refusal, s, ?_, ⟨.refl s, rfl, hs, id⟩, fun _ _ => trivial⟩
      rw [Store.declare, Store.run_read_then, hdeclare]
      rfl
    | ok types =>
      refine ⟨.ok (), { s with types := types }, ?_, loaded_setTypes hs ?_ fun h => ?_,
        fun _ _ => trivial⟩
      · rw [Store.declare, Store.run_read_then, hdeclare]
        rfl
      · exact TypeTable.forall_of_declare hdeclare hs.types (Member.template_of_fits (.inl hfirst))
      · exact TypeTable.forall_of_declare hdeclare h (hfirst.setFlag .attached false)

theorem loads_load {declaration : TypeDeclaration}
    (h : ∀ v ∈ MemberDeclaration.allValues declaration.members, v.members = []) :
    (declaration.load env).Loads Γ s fun _ _ => True := by
  refine (MemberDeclaration.loads_loadAll env s declaration.members h).andThen
    fun members t _ hm => ?_
  refine andThen (G := fun u _ => MemberDeclaration.AllFit Γ u members) (fun ht _ => ?_)
    fun _ u _ hm => loads_declareAll declaration.name hm
  refine ⟨_, _, rfl, loaded_setTypes ht (TypeTable.forall_declareType ht.types declaration.name)
    fun h => TypeTable.forall_declareType h declaration.name, fun _ _ m hmem => ?_⟩
  exact (hm m hmem).onward (.of_same (fun {p} => by cases p <;> exact id) rfl)

theorem loads_loadAll {declarations : List TypeDeclaration}
    (h : ∀ declaration ∈ declarations,
      ∀ v ∈ MemberDeclaration.allValues declaration.members, v.members = []) :
    (loadAll env declarations).Loads Γ s fun _ _ => True := by
  induction declarations generalizing s with
  | nil => exact ok trivial
  | cons declaration rest ih =>
    obtain ⟨hfirst, hrest⟩ := List.forall_mem_cons.mp h
    exact (mapFailure _ (loads_load env hfirst)).andThen fun _ t _ _ => ih hrest

end TypeDeclaration

theorem Environment.loads_loadTypes {Γ : Ledger} {s : Store} (env : Environment) (text : String) :
    (env.loadTypes text).Loads Γ s fun _ _ => True := by
  unfold loadTypes
  split
  next declarations h =>
    exact TypeDeclaration.loads_loadAll env (TypeDeclaration.values_of_ofDocument? h)
  next => exact .throw _

/-! ## Changes -/

namespace World

variable {Γ Δ : Ledger} {w w' : World}

theorem Sound.setTypes {types : TypeTable} (hw : w.Sound Γ)
    (h : ∀ entry ∈ types, ∀ m ∈ entry.2.members, m.Template Γ w.store) :
    ∃ Δ, Continues Γ w Δ (w.withStore { w.store with types := types }) := by
  have ht : w.store.Onward { w.store with types := types } :=
    .of_same (fun {p} => by cases p <;> exact id) rfl
  exact Sound.staying ht rfl rfl (hw.withStore ht (hw.store.setTypes h))

/-- A load goes on with a ledger that has all new parts for the declarations. -/
theorem Sound.load (hw : w.Sound Γ) (env : Environment) (text : String) :
    ∃ Δ, Continues Γ w Δ (w.withStore (w.store.after (env.loadTypes text).run)) ∧
      (w.store.Isolated Γ → (w.store.after (env.loadTypes text).run).Isolated Δ) := by
  have hagrees := Ledger.agrees_awaiting (Γ := Γ) (s := w.store) (h := .template)
  replace hw := hw.agree hagrees
  obtain ⟨outcome, t, hrun, ht, -⟩ := env.loads_loadTypes text hw.store Ledger.awaits_awaiting
  obtain rfl : w.store.after (env.loadTypes text).run = t := congrArg Prod.snd hrun
  exact ⟨_, ⟨hagrees, ht.onward, ht.keeps.weaken fun _ _ => trivial,
    hw.withStore ht.onward ht.sound⟩, fun h => ht.isolated (h.agree hagrees)⟩

theorem Sound.change (hw : w.Sound Γ) (h : Change w w') (hΓ : Γ.Allows true w w') :
    ∃ Δ, Continues Γ w Δ w' := by
  cases h with
  | deed h => exact hw.deed h hΓ
  | declareType name => exact hw.setTypes (TypeTable.forall_declareType hw.store.types name)
  | @declare m hm typeName =>
    cases hdeclare : w.store.types.declare typeName m with
    | error refusal =>
      rw [Store.after, Store.declare, Store.run_read_then, hdeclare]
      exact staying (Store.Coherent.refl _) rfl rfl hw
    | ok types =>
      rw [Store.after, Store.declare, Store.run_read_then, hdeclare]
      exact hw.setTypes (TypeTable.forall_of_declare hdeclare hw.store.types
        (Member.template_of_fits (.inr (hw.members m hm))))
  | load env text =>
    obtain ⟨Δ, hΔ, -⟩ := hw.load env text
    exact ⟨Δ, hΔ⟩

/-- Where there is nothing yet, any ledger will do. -/
theorem sound_initial {shelf : Array Value} (h : ∀ v ∈ shelf, v.members = []) (Γ : Ledger) :
    (initial shelf).Sound Γ := by
  have hcell (c : CellId) : (Store.initial shelf).cell c = .null := by
    simp [Store.cell, Store.initial, Store.empty]
  have hlist (l : ListId) : ((Store.initial shelf).list l).members = [] := by
    simp [Store.list, Store.initial, Store.empty, MemberList.members, MemberList.empty]
  have hobject (o : ObjectId) : (Store.initial shelf).object? o = none := by
    simp [Store.object?, Store.initial, Store.empty]
  have hscript (i : ScriptId) : ((Store.initial shelf).script i).blocks.template = none := by
    simp [Store.script, Store.initial, Store.empty]
  have hstore : (Store.initial shelf).Sound Γ := by
    refine ⟨fun c m hm => ?_, fun v hv m hm => ?_, fun l m hm => ?_, fun l m hm => ?_,
      fun entry hentry => absurd hentry List.not_mem_nil, fun o state ho => ?_,
      fun i block hblock => ?_⟩
    · rw [hcell] at hm
      exact absurd hm List.not_mem_nil
    · rw [h v hv] at hm
      exact absurd hm List.not_mem_nil
    · rw [hlist] at hm
      exact absurd hm List.not_mem_nil
    · rw [hlist] at hm
      exact absurd hm List.not_mem_nil
    · cases (hobject o).symm.trans ho
    · cases (hscript i).symm.trans hblock
  exact ⟨hstore, fun _ hm => absurd hm List.not_mem_nil, fun _ hk => absurd hk List.not_mem_nil,
    fun _ hc => absurd hc List.not_mem_nil, fun _ hi => absurd hi List.not_mem_nil⟩

end World

end DynamicMembers
