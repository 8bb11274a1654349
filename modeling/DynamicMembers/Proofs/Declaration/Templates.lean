import DynamicMembers.Proofs.Declaration.Representation
import DynamicMembers.Proofs.View.Contents

/-! # Templates

What is declared for a type is a template: the mark of an attached member is taken from it.
It is not taken from the members that are nested in it, at whatever level. They have it if
they were loaded, and otherwise as they had it before (`World.Origin`). Notes tell by that
mark alone whether they may be written, so a nested note of a template can be written if it
has the mark, and what is declared for the type is changed with it
(`World.Reachable.templates`).
-/
namespace DynamicMembers

namespace Store

def Nested (s : Store) (m inner : Member) : Prop :=
  ∃ l direct, m.kind.list? = some l ∧ direct ∈ (s.list l).members ∧ s.Includes direct inner

/-- The member is marked as attached, and so is all that is nested in it. -/
inductive AllAttached (s : Store) : Member → Prop
  | intro {m : Member} (own : m.flags.attached = true)
      (there : ∀ l, m.kind.list? = some l → s.Has (.list l))
      (nested : ∀ l, m.kind.list? = some l → ∀ direct ∈ (s.list l).members,
        AllAttached s direct) : AllAttached s m

/-- A template that was loaded: only the mark of the member itself has been taken. -/
structure LoadedTemplate (s : Store) (template : Member) : Prop where
  detached : template.flags.attached = false
  nested : s.AllAttached (template.setFlag .attached true)

namespace AllAttached

variable {s t : Store} {m other inner : Member}

theorem of_kind_plain {kind : MemberKind} (hkind : m.kind = kind) (hl : kind.list? = none)
    (hown : m.flags.attached = true) : s.AllAttached m := by
  subst hkind
  exact ⟨hown, by simp [hl], by simp [hl]⟩

theorem of_kind (h : s.AllAttached m) (hkind : other.kind = m.kind)
    (hown : other.flags.attached = true) : s.AllAttached other := by
  cases h with
  | intro _ there nested => exact ⟨hown, hkind ▸ there, hkind ▸ nested⟩

/-- It is said of lists that are there, so it stays when others are made. -/
theorem mono (h : s.AllAttached m) (hkeeps : s.Keeps (fun _ => True) t) : t.AllAttached m := by
  induction h with
  | intro hown there _ ih =>
    refine ⟨hown, fun l hl => hkeeps.has trivial (there l hl), fun l hl direct hdirect => ?_⟩
    rw [hkeeps.list trivial (there l hl)] at hdirect
    exact ih l hl direct hdirect

theorem of_includes (h : s.AllAttached m) (hinner : s.Includes m inner) :
    inner.flags.attached = true := by
  induction hinner with
  | self =>
    cases h with
    | intro hown _ _ => exact hown
  | nested hl hnested _ ih =>
    cases h with
    | intro _ _ hdirect => exact ih (hdirect _ hl _ hnested)

theorem of_nested (h : s.AllAttached m) (hinner : s.Nested m inner) :
    inner.flags.attached = true := by
  obtain ⟨l, direct, hl, hdirect, hincludes⟩ := hinner
  exact h.of_includes (.nested hl hdirect hincludes)

end AllAttached

end Store

/-! ## Loads -/

/-- What is declared is marked as attached at every level, as long as its own mark is left. -/
theorem DeclaredKind.Represented.allAttached {env : Environment} {s : Store} {kind : DeclaredKind}
    {made : MemberKind} (h : kind.Represented env s made) :
    ∀ m : Member, m.kind = made → m.flags.attached = true → s.AllAttached m := by
  induction h with
  | @memberSet inherits declarations l made hthere hlist hlength hbears hkinds ih =>
    intro m hkind hown
    refine ⟨hown, fun k hk => ?_, fun k hk direct hdirect => ?_⟩
    all_goals
      obtain rfl : l = k := by simpa [hkind, MemberKind.list?] using hk
    · exact hthere
    · obtain ⟨declaration, hpair⟩ := exists_mem_zip hlength (hlist ▸ hdirect)
      exact ih declaration direct hpair direct rfl (by rw [(hbears _ _ hpair).flags]; rfl)
  | _ => exact fun m hkind hown => .of_kind_plain hkind rfl hown

/-- What holds of the members of a table before, and of those that are declared, holds after. -/
theorem TypeTable.forall_of_declareEach {P : Member → Prop} {table types : TypeTable}
    {typeName : String} {members : List Member} {outcome : Except DeclarationFault Unit}
    (h : declareEach typeName table members = (outcome, types))
    (htable : ∀ entry ∈ table, ∀ m ∈ entry.2.members, P m)
    (hmembers : ∀ m ∈ members, P (m.setFlag .attached false)) :
    ∀ entry ∈ types, ∀ m ∈ entry.2.members, P m := by
  induction members generalizing table with
  | nil =>
    cases h
    exact htable
  | cons m rest ih =>
    obtain ⟨hm, hrest⟩ := List.forall_mem_cons.mp hmembers
    rw [declareEach] at h
    cases hdeclare : TypeTable.declare table typeName m with
    | error refusal =>
      rw [hdeclare] at h
      cases h
      exact htable
    | ok middle =>
      rw [hdeclare] at h
      exact ih h (forall_of_declare hdeclare htable hm) hrest

namespace Store.LoadedTemplate

variable {s t : Store} {m template : Member}

theorem of_allAttached (h : s.AllAttached m) : s.LoadedTemplate (m.setFlag .attached false) :=
  ⟨rfl, h.of_kind rfl rfl⟩

theorem mono (h : s.LoadedTemplate template) (hkeeps : s.Keeps (fun _ => True) t) :
    t.LoadedTemplate template :=
  ⟨h.detached, h.nested.mono hkeeps⟩

end Store.LoadedTemplate

namespace TypeDeclaration
open Store

variable {env : Environment} {s t : Store} {template : Member}

theorem declared_of_load {declaration : TypeDeclaration} {outcome : Except DeclarationFault Unit}
    (h : (declaration.load env).run.run s = (outcome, t)) (hdeclared : t.IsDeclared template) :
    s.IsDeclared template ∨ t.LoadedTemplate template := by
  obtain ⟨name, declarations⟩ := declaration
  obtain ⟨loaded, u, hloaded⟩ : ∃ loaded u,
      (MemberDeclaration.loadAll env declarations).run.run s = (loaded, u) := ⟨_, _, rfl⟩
  have htypes : u.types = s.types := (MemberDeclaration.extends_of_loadAll hloaded).types
  cases loaded with
  | error cause =>
    cases (run_then_of_error hloaded).symm.trans h
    exact .inl (by rwa [IsDeclared, htypes] at hdeclared)
  | ok made =>
    have hmade (m : Member) (hm : m ∈ made) : u.AllAttached m := by
      obtain ⟨declaration, -, h⟩ := exists_mem_of_forall₂
        (MemberDeclaration.represented_loadAll declarations hloaded) hm
      exact h.kind.allAttached m rfl (by rw [h.bears.flags]; rfl)
    cases (run_load_of_made hloaded).symm.trans h
    obtain ⟨entry, hentry, htemplate⟩ := hdeclared
    refine TypeTable.forall_of_declareEach (P := fun m => s.IsDeclared m ∨ u.LoadedTemplate m)
      (Prod.ext rfl rfl) ?_ (fun m hm => .inr (.of_allAttached (hmade m hm))) entry hentry template
      htemplate |>.imp id (·.mono ?_)
    · refine TypeTable.forall_declareType (fun entry hentry m hm => ?_) name
      exact .inl ⟨entry, htypes ▸ hentry, hm⟩
    · exact .of_same rfl rfl (Nat.le_refl _) (Nat.le_refl _)

theorem declared_of_loadAll {declarations : List TypeDeclaration}
    {outcome : Except ConfigurationFault Unit}
    (h : (loadAll env declarations).run.run s = (outcome, t)) (hdeclared : t.IsDeclared template) :
    s.IsDeclared template ∨ t.LoadedTemplate template := by
  induction declarations generalizing s with
  | nil =>
    cases h
    exact .inl hdeclared
  | cons declaration rest ih =>
    obtain ⟨first, u, hfirst⟩ : ∃ first u, (declaration.load env).run.run s = (first, u) :=
      ⟨_, _, rfl⟩
    have hrun := run_mapFailure (ConfigurationFault.inType declaration.name)
      (declaration.load env) s
    rw [hfirst] at hrun
    rw [loadAll] at h
    cases first with
    | error cause =>
      cases (run_then_of_error hrun).symm.trans h
      exact declared_of_load hfirst hdeclared
    | ok _ =>
      replace h := (run_then_of_ok hrun).symm.trans h
      have hkeeps := within_loadAll (R := Keeps fun _ => True) env rest u
      rw [after, h] at hkeeps
      rcases ih h with hbefore | hloaded
      · exact (declared_of_load hfirst hbefore).imp id (·.mono hkeeps)
      · exact .inr hloaded

end TypeDeclaration

theorem Environment.declared_of_loadTypes (env : Environment) (text : String) {s : Store}
    {template : Member} (h : (s.after (env.loadTypes text).run).IsDeclared template) :
    s.IsDeclared template ∨ (s.after (env.loadTypes text).run).LoadedTemplate template := by
  unfold loadTypes at h ⊢
  split at h
  · exact TypeDeclaration.declared_of_loadAll rfl h
  · exact .inl h

theorem Store.SameParts.nested_iff {s t : Store} {m inner : Member} (hm : s.SameParts t m) :
    t.Nested m inner ↔ s.Nested m inner := by
  constructor
  · rintro ⟨l, direct, hl, hdirect, hinner⟩
    rw [hm.list l (Store.spans_list hl)] at hdirect
    exact ⟨l, direct, hl, hdirect, (hm.nested hl hdirect).includes_iff.mp hinner⟩
  · rintro ⟨l, direct, hl, hdirect, hinner⟩
    refine ⟨l, direct, hl, ?_, (hm.nested hl hdirect).includes_iff.mpr hinner⟩
    rwa [hm.list l (Store.spans_list hl)]

/-! ## Building up types -/

namespace World

/-- The types of a model are built up: types and members are declared, and documents are loaded.
Meanwhile members may be made, while what is there is left alone. -/
inductive Build : World → World → Prop
  | declareType {w : World} (name : String) :
      Build w (w.withStore { w.store with types := w.store.types.declareType name })
  | declare {w : World} {m : Member} (hm : m ∈ w.members) (typeName : String) :
      Build w (w.withStore (w.store.after (Store.declare typeName m).run))
  | load {w : World} (env : Environment) (text : String) :
      Build w (w.withStore (w.store.after (env.loadTypes text).run))
  | meanwhile {w w' : World} (h : Deed true w w')
      (hkeeps : w.store.Keeps (fun _ => True) w'.store) : Build w w'

abbrev Builds : World → World → Prop := Relation.ReflTransGen Build

/-- How a member came to be declared, and what is nested in it. -/
inductive Origin (w w' : World) (template : Member) : Prop
  /-- It was declared before, and has nested in it what it had. -/
  | before (h : w.store.IsDeclared template)
      (same : ∀ inner, w'.store.Nested template inner ↔ w.store.Nested template inner)
  /-- Someone held it and has declared it. What was nested in it by then is so still, just as it
  was. -/
  | byHand {u : World} {m : Member} (hu : Builds w u) (hrest : Builds u w') (hm : m ∈ u.members)
      (h : template = m.setFlag .attached false)
      (same : ∀ inner, w'.store.Nested template inner ↔ u.store.Nested m inner)
  /-- It was loaded, and all that is nested in it is marked as attached. -/
  | loaded (nested : ∀ inner, w'.store.Nested template inner → inner.flags.attached = true)

/-- What is true of the templates when types have been built up. -/
structure Templates (w w' : World) : Prop where
  detached : ∀ template, w'.store.IsDeclared template → template.flags.attached = false
  origin : ∀ template, w'.store.IsDeclared template → w.Origin w' template
  /-- Notes without the mark, at whatever level, are read-only. -/
  refused : ∀ template note c, w'.store.IsDeclared template → w'.store.Includes template note →
    note.kind = .note c → note.flags.attached = false → ∀ env v,
    (note.setValue env v).run.run w'.store = (.error (.setValue note.name .sharedNote), w'.store)
  /-- Notes with the mark are written, and then have the value. -/
  written : ∀ template note c, w'.store.IsDeclared template → w'.store.Includes template note →
    note.kind = .note c → note.flags.attached = true → ∀ env v,
    (note.setValue env v).run.run w'.store = (.ok (), w'.store.setCell c v) ∧
      (note.value env).run.run (w'.store.setCell c v) = (.ok v, w'.store.setCell c v)

variable {w w' w'' : World} {template m : Member}

theorem Build.change (h : Build w w') : Change w w' := by
  cases h with
  | declareType name => exact .declareType name
  | declare hm typeName => exact .declare hm typeName
  | load env text => exact .load env text
  | meanwhile h _ => exact .deed h

theorem Build.keeps (h : Build w w') : w.store.Keeps (fun _ => True) w'.store := by
  cases h with
  | declareType name => exact Store.Declares.declareType w.store name
  | declare hm typeName => exact Store.Declares.declare typeName _ w.store
  | load env text => exact env.within_loadTypes text w.store
  | meanwhile _ hkeeps => exact hkeeps

theorem Builds.reachable (hw : w.Reachable) (h : Builds w w') : w'.Reachable :=
  hw.acts (h.lift id fun _ _ hstep => .change hstep.change)

theorem Reachable.fits_of_isDeclared (hw : w.Reachable) (h : w.store.IsDeclared template) :
    ∃ Γ, w.store.Sound Γ ∧ ∃ holder, template.Fits Γ w.store holder := by
  obtain ⟨Γ, hsound, -⟩ := hw.sound
  obtain ⟨entry, hentry, htemplate⟩ := h
  exact ⟨Γ, hsound.store, (hsound.store.types entry hentry template htemplate).exists_fits⟩

theorem Build.nested_iff (hw : w.Reachable) (h : Build w w')
    (hdeclared : w.store.IsDeclared template) (inner : Member) :
    w'.store.Nested template inner ↔ w.store.Nested template inner := by
  obtain ⟨Γ, hsound, _, hfits⟩ := hw.fits_of_isDeclared hdeclared
  exact (Store.SameParts.of_keeps hsound hfits h.keeps fun _ _ => trivial).nested_iff

/-- What was declared before the last step is so for the same reason. -/
theorem Origin.later (hw' : w'.Reachable) (h : w.Origin w' template) (hlast : Build w' w'')
    (hdeclared : w'.store.IsDeclared template) : w.Origin w'' template := by
  have hsame := hlast.nested_iff hw' hdeclared
  cases h with
  | before h same => exact .before h fun inner => (hsame inner).trans (same inner)
  | byHand hu hrest hm h same =>
    exact .byHand hu (hrest.tail hlast) hm h fun inner => (hsame inner).trans (same inner)
  | loaded nested => exact .loaded fun inner hinner => nested inner ((hsame inner).mp hinner)

/-- What is declared after a step was so before, or it is what has just been declared. -/
theorem Build.declared_cases (h : Build w w') (hdeclared : w'.store.IsDeclared template) :
    w.store.IsDeclared template ∨ (∃ m ∈ w.members, template = m.setFlag .attached false) ∨
      w'.store.LoadedTemplate template := by
  have hbefore : ∀ entry ∈ w.store.types, ∀ m ∈ entry.2.members, w.store.IsDeclared m :=
    fun entry hentry m hm => ⟨entry, hentry, hm⟩
  cases h with
  | declareType name =>
    obtain ⟨entry, hentry, htemplate⟩ := hdeclared
    exact .inl (TypeTable.forall_declareType hbefore name entry hentry template htemplate)
  | @declare m hm typeName =>
    cases hdeclare : w.store.types.declare typeName m with
    | error refusal =>
      have hstore : w.store.after (Store.declare typeName m).run = w.store := by
        rw [Store.after, Store.declare, Store.run_read_then, hdeclare]
        rfl
      exact .inl (by rwa [World.withStore, hstore] at hdeclared)
    | ok types =>
      have hstore : w.store.after (Store.declare typeName m).run =
          { w.store with types := types } := by
        rw [Store.after, Store.declare, Store.run_read_then, hdeclare]
        rfl
      rw [World.withStore, hstore] at hdeclared
      obtain ⟨entry, hentry, htemplate⟩ := hdeclared
      refine (TypeTable.forall_of_declare (P := fun other => w.store.IsDeclared other ∨
        other = m.setFlag .attached false) hdeclare (fun entry hentry other hother => ?_) (.inr rfl)
        entry hentry template htemplate).imp id fun hnew => .inl ⟨m, hm, hnew⟩
      exact .inl (hbefore entry hentry other hother)
  | load env text => exact (env.declared_of_loadTypes text hdeclared).imp id .inr
  | meanwhile h _ => exact .inl (by rwa [Store.IsDeclared, h.retains.types] at hdeclared)

theorem Builds.origin (hw : w.Reachable) (h : Builds w w')
    (hdeclared : w'.store.IsDeclared template) : w.Origin w' template := by
  induction h with
  | refl => exact .before hdeclared fun _ => .rfl
  | @tail middle last hfirst hlast ih =>
    have hmiddle := Builds.reachable hw hfirst
    rcases hlast.declared_cases hdeclared with hbefore | ⟨m, hm, rfl⟩ | hloaded
    · exact (ih hbefore).later hmiddle hlast hbefore
    · obtain ⟨Γ, hsound, -⟩ := hmiddle.sound
      obtain ⟨_, hfits⟩ := (hsound.members m hm).exists_owner
      have hsame := Store.SameParts.of_keeps hsound.store hfits hlast.keeps fun _ _ => trivial
      exact .byHand hfirst (.single hlast) hm rfl fun _ => hsame.nested_iff
    · exact .loaded fun _ hinner => hloaded.nested.of_nested hinner

/-- However the types have been built up, only the members that are declared themselves have lost
the mark of an attached member. -/
theorem Reachable.templates (hw : w.Reachable) (h : Builds w w') : w.Templates w' where
  detached template hdeclared := by
    obtain ⟨Γ, hsound, -⟩ := (Builds.reachable hw h).sound
    obtain ⟨entry, hentry, htemplate⟩ := hdeclared
    exact (hsound.store.types entry hentry template htemplate).detached
  origin _ hdeclared := Builds.origin hw h hdeclared
  refused _ note c _ _ hnote hmark env v := by
    rw [Member.run_setValue_note hnote, if_neg (by simp [hmark])]
  written template note c hdeclared hincludes hnote hmark env v := by
    obtain ⟨Γ, hsound, _, hfits⟩ := (Builds.reachable hw h).fits_of_isDeclared hdeclared
    have hcell : w'.store.Has (.cell c) := hsound.has_of_spans hfits
      (hincludes.spans (Store.spans_cell (by rw [hnote]; rfl)))
    rw [Member.run_setValue_note hnote, if_pos hmark, Member.run_value_note hnote,
      Store.cell_setCell_self hcell]
    exact ⟨rfl, rfl⟩

def groupDeclared : World :=
  grouped.withStore (grouped.store.after (Store.declare "Shape" looseGroup).run)

theorem Reachable.templates_groupDeclared : grouped.Reachable ∧ Builds grouped groupDeclared ∧
    groupDeclared.store.types.typeMembers "Shape" = [looseGroup.setFlag .attached false] ∧
    grouped.Templates groupDeclared := by
  have hreached : grouped.Reachable :=
    ⟨#[], by simp, acts_of_changes (changes_of_deeds (deeds_sized.trans deeds_grouped))⟩
  have hbuilds : Builds grouped groupDeclared := .single (.declare (by decide +kernel) "Shape")
  exact ⟨hreached, hbuilds, by decide +kernel, hreached.templates hbuilds⟩

/-- A note in a member set that was loaded is written by way of the declaration. -/
theorem written_of_loaded :
    Builds (initial #[]) countedShapes ∧
    countedShapes.store.IsDeclared (looseGroup.setFlag .attached false) ∧
    countedShapes.store.Nested (looseGroup.setFlag .attached false) looseSize ∧
    looseSize.flags.attached = true ∧ ∀ env : Environment,
      (looseSize.value env).run.run countedShapes.store = (.ok (.int 1), countedShapes.store) ∧
      (looseSize.setValue env (.int 5)).run.run countedShapes.store =
        (.ok (), countedShapes.store.setCell ⟨0⟩ (.int 5)) ∧
      (looseSize.value env).run.run (countedShapes.store.setCell ⟨0⟩ (.int 5)) =
        (.ok (.int 5), countedShapes.store.setCell ⟨0⟩ (.int 5)) := by
  obtain ⟨⟨hdeclared, hnested⟩, hthere, hread⟩ :
      ((∃ entry ∈ countedShapes.store.types,
          looseGroup.setFlag .attached false ∈ entry.2.members) ∧
        looseSize ∈ (countedShapes.store.list ⟨0⟩).members) ∧
      0 < countedShapes.store.cells.size ∧
      ((countedShapes.store.cell ⟨0⟩).expectInt fun _ => "").toOption = some 1 := by
    decide +kernel
  have hone : countedShapes.store.cell ⟨0⟩ = .int 1 := by
    cases hcell : countedShapes.store.cell ⟨0⟩ <;> rw [hcell] at hread <;> cases hread
    rfl
  have hfive : (countedShapes.store.setCell ⟨0⟩ (.int 5)).cell ⟨0⟩ = .int 5 :=
    Store.cell_setCell_self hthere _
  refine ⟨.single (.load (CommandHost.bare.environment 1) countedShape), hdeclared,
    ⟨⟨0⟩, looseSize, rfl, hnested, .self looseSize⟩, rfl, fun env => ⟨?_, ?_, ?_⟩⟩
  · rw [Member.run_value_note rfl, hone]
  · rw [Member.run_setValue_note rfl]
    rfl
  · rw [Member.run_value_note rfl, hfive]

end World

end DynamicMembers
