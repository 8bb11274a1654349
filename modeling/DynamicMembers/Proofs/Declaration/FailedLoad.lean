import DynamicMembers.Proofs.Declaration.DeclaredTypes
import DynamicMembers.Proofs.Store.Commands

/-! # What a failed load leaves behind

A document is loaded type by type. If a type fails, the types before it stay declared.
If its members could all be made but one of them may not be declared for its reserved
name, the type stays declared as well, with the members before that one. So a document
that fails leaves behind what a shorter one declares, and the types are as they were if and
only if that one has nothing new to declare (`TypeDeclaration.leaves_of_failed`).
-/
namespace DynamicMembers
open Store

/-! ## Growth -/

/-- Members have been made, and the same are declared as before. -/
structure Store.Extends (s t : Store) : Prop where
  cells : s.cells.toList <+: t.cells.toList
  lists : s.lists.toList <+: t.lists.toList
  scripts : s.scripts.toList <+: t.scripts.toList
  types : t.types = s.types
  made : s.made ≤ t.made

namespace Store.Extends

theorem refl (s : Store) : s.Extends s :=
  ⟨List.prefix_rfl, List.prefix_rfl, List.prefix_rfl, rfl, Nat.le_refl _⟩

theorem withTypes {s t : Store} (h : s.Extends t) (types : TypeTable) :
    Store.Extends { s with types := types } { t with types := types } :=
  ⟨h.cells, h.lists, h.scripts, rfl, h.made⟩

end Store.Extends

instance : Coherent Store.Extends where
  refl := Store.Extends.refl
  trans h hrest := ⟨h.cells.trans hrest.cells, h.lists.trans hrest.lists,
    h.scripts.trans hrest.scripts, hrest.types.trans h.types, Nat.le_trans h.made hrest.made⟩

instance : Store.Grows Store.Extends where
  addCell v s := { Store.Extends.refl s with
    cells := by simp [after, addCell, StateT.run] }
  addScript s script := { Store.Extends.refl s with
    scripts := by simp }
  addList _ s := { Store.Extends.refl s with
    lists := by simp [after, Store.addList, StateT.run] }
  nextMemberId s := ⟨List.prefix_rfl, List.prefix_rfl, List.prefix_rfl, rfl, Nat.le_succ s.made⟩

/-! ## Members -/

namespace MemberDeclaration

variable {env : Environment} {s t : Store}

theorem ok_of_loadAll_cons {declaration : MemberDeclaration} {rest : List MemberDeclaration}
    {members : List Member} (h : (loadAll env (declaration :: rest)).run.run s = (.ok members, t)) :
    ∃ m others u, (load env declaration).run.run s = (.ok m, u) ∧
      (loadAll env rest).run.run u = (.ok others, t) ∧ members = m :: others := by
  unfold loadAll at h
  obtain ⟨m, u, hfirst, h⟩ := ok_of_then_ok h
  obtain ⟨others, v, hrest, h⟩ := ok_of_then_ok h
  cases h
  exact ⟨m, others, u, ok_of_mapFailure_ok hfirst, hrest, rfl⟩

theorem loadAll_cons_of_ok {declaration : MemberDeclaration} {rest : List MemberDeclaration}
    {m : Member} {others : List Member} {u : Store}
    (h : (load env declaration).run.run s = (.ok m, u))
    (hrest : (loadAll env rest).run.run u = (.ok others, t)) :
    (loadAll env (declaration :: rest)).run.run s = (.ok (m :: others), t) := by
  have hfirst : ((load env declaration).mapFailure
      (DeclarationFault.inMember declaration.name)).run.run s = (.ok m, u) := by
    rw [run_mapFailure, h]
    rfl
  unfold loadAll
  rw [run_then_of_ok hfirst, run_then_of_ok hrest]
  rfl

theorem extends_of_within {ε α : Type} {x : Run ε α} {outcome : Except ε α}
    (hx : Within Store.Extends x.run) (h : x.run.run s = (outcome, t)) : s.Extends t := by
  have hwithin := hx s
  rwa [after, h] at hwithin

theorem name_id_load {declaration : MemberDeclaration} {m : Member}
    (h : (load env declaration).run.run s = (.ok m, t)) :
    m.name = declaration.name ∧ m.IsNew s.made ∧ ¬ m.IsNew t.made := by
  obtain ⟨name, hidden, kind⟩ := declaration
  unfold load at h
  obtain ⟨made, u, hkind, h⟩ := ok_of_then_ok h
  obtain ⟨defined, v, hdefine, h⟩ := ok_of_then_ok h
  cases h
  have hextends : s.Extends u := extends_of_within (within_loadKind env kind) hkind
  have hdefined : defined.name = name ∧ defined.IsNew s.made ∧ ¬ defined.IsNew t.made := by
    have hdefine := ok_of_mapFailure_ok hdefine
    unfold Member.define at hdefine
    split at hdefine
    · cases hdefine
    · cases hdefine
      refine ⟨rfl, ⟨u.made, rfl, hextends.made⟩, ?_⟩
      rintro ⟨serial, hserial, hlater⟩
      obtain rfl : u.made = serial := MemberId.made.inj hserial
      exact Nat.not_succ_le_self _ hlater
  cases hidden <;> exact hdefined

theorem loadAll_of_append {first rest : List MemberDeclaration} {members : List Member}
    (h : (loadAll env (first ++ rest)).run.run s = (.ok members, t)) :
    ∃ made others u, (loadAll env first).run.run s = (.ok made, u) ∧
      (loadAll env rest).run.run u = (.ok others, t) ∧ members = made ++ others := by
  induction first generalizing s members with
  | nil => exact ⟨[], members, s, by unfold loadAll; rfl, h, rfl⟩
  | cons declaration first ih =>
    obtain ⟨m, others, u, hm, hothers, rfl⟩ := ok_of_loadAll_cons h
    obtain ⟨made, last, v, hmade, hlast, rfl⟩ := ih hothers
    exact ⟨m :: made, last, v, loadAll_cons_of_ok hm hmade, hlast, rfl⟩

theorem names_loadAll {declarations : List MemberDeclaration} {members : List Member}
    (h : (loadAll env declarations).run.run s = (.ok members, t)) :
    members.map (·.name) = declarations.map (·.name) := by
  induction declarations generalizing s members with
  | nil =>
    unfold loadAll at h
    cases h
    rfl
  | cons declaration rest ih =>
    obtain ⟨m, others, u, hm, hothers, rfl⟩ := ok_of_loadAll_cons h
    rw [List.map_cons, List.map_cons, (name_id_load hm).1, ih hothers]

theorem extends_of_loadAll {declarations : List MemberDeclaration}
    {outcome : Except DeclarationFault (List Member)}
    (h : (loadAll env declarations).run.run s = (outcome, t)) : s.Extends t :=
  extends_of_within (within_loadAll env declarations) h

theorem isNew_loadAll {declarations : List MemberDeclaration} {members : List Member}
    (h : (loadAll env declarations).run.run s = (.ok members, t)) :
    ∀ m ∈ members, m.IsNew s.made ∧ ¬ m.IsNew t.made := by
  induction declarations generalizing s members with
  | nil =>
    unfold loadAll at h
    cases h
    simp
  | cons declaration rest ih =>
    obtain ⟨m, others, u, hm, hothers, rfl⟩ := ok_of_loadAll_cons h
    have hfirst : s.Extends u := extends_of_within (within_load env declaration) hm
    have hrest : u.Extends t := extends_of_loadAll hothers
    obtain ⟨-, hnew, hold⟩ := name_id_load hm
    refine List.forall_mem_cons.mpr ⟨⟨hnew, fun hlater => hold (hlater.mono hrest.made)⟩, ?_⟩
    intro other hother
    obtain ⟨hotherNew, hotherOld⟩ := ih hothers other hother
    exact ⟨hotherNew.mono hfirst.made, hotherOld⟩

/-- Where the members made are split, the declarations can be split. -/
theorem split_of_loadAll {declarations : List MemberDeclaration} {first rest : List Member}
    {m : Member} (h : (loadAll env declarations).run.run s = (.ok (first ++ m :: rest), t)) :
    ∃ before declaration behind u, declarations = before ++ declaration :: behind ∧
      before.map (·.name) = first.map (·.name) ∧ declaration.name = m.name ∧
      (loadAll env before).run.run s = (.ok first, u) ∧ u.Extends t := by
  obtain ⟨before, others, rfl, hbefore, hothers⟩ :=
    List.map_eq_append_iff.mp ((names_loadAll h).symm.trans List.map_append)
  obtain ⟨declaration, behind, rfl, hname, -⟩ := List.map_eq_cons_iff.mp hothers
  obtain ⟨made, left, u, hmade, hleft, hsplit⟩ := loadAll_of_append h
  have hlength : first.length = made.length := by
    have hnames := hbefore.symm.trans (names_loadAll hmade).symm
    simpa using congrArg List.length hnames
  obtain ⟨rfl, -⟩ := List.append_inj hsplit hlength
  exact ⟨before, declaration, behind, u, rfl, hbefore, hname, hmade, extends_of_loadAll hleft⟩

end MemberDeclaration

/-! ## Failed types -/

namespace TypeDeclaration

variable {env : Environment} {s t : Store}

theorem run_declareAll (typeName : String) (members : List Member) (s : Store) :
    (declareAll typeName members).run.run s =
      ((s.types.declareEach typeName members).1,
        { s with types := (s.types.declareEach typeName members).2 }) := by
  induction members generalizing s with
  | nil => rfl
  | cons m rest ih =>
    rw [declareAll]
    cases hdeclare : s.types.declare typeName m with
    | error refusal =>
      have hfailed : ((Store.declare typeName m).mapFailure DeclarationFault.member).run.run s =
          (.error (.member refusal), s) := by
        rw [run_mapFailure, Store.declare, run_read_then, hdeclare]
        rfl
      rw [run_then_of_error hfailed, TypeTable.declareEach, hdeclare]
    | ok types =>
      have hdeclared : ((Store.declare typeName m).mapFailure DeclarationFault.member).run.run s =
          (.ok (), { s with types := types }) := by
        rw [run_mapFailure, Store.declare, run_read_then, hdeclare]
        rfl
      rw [run_then_of_ok hdeclared, ih, TypeTable.declareEach, hdeclare]

/-- Once its members are made, it is the table that says what becomes of a type. -/
theorem run_load_of_made {name : String} {declared : List MemberDeclaration} {made : List Member}
    (h : (MemberDeclaration.loadAll env declared).run.run s = (.ok made, t)) :
    (load env ⟨name, declared⟩).run.run s =
      (((t.types.declareType name).declareEach name made).1,
        { t with types := ((t.types.declareType name).declareEach name made).2 }) := by
  rw [load, run_then_of_ok h, run_write_then, run_declareAll]

/-- A type that fails leaves nothing behind, or what it declares before a reserved name. -/
theorem load_of_failed {name : String} {declared : List MemberDeclaration}
    {cause : DeclarationFault} (h : (load env ⟨name, declared⟩).run.run s = (.error cause, t)) :
    (MemberDeclaration.loadAll env declared).run.run s = (.error cause, t) ∨
      ∃ before refused behind made u v, declared = before ++ refused :: behind ∧
        (MemberDeclaration.loadAll env declared).run.run s = (.ok made, u) ∧
        (∀ d ∈ before, isReservedName d.name = false) ∧ isReservedName refused.name = true ∧
        cause = .member (.reservedName refused.name) ∧
        (load env ⟨name, before⟩).run.run s = (.ok (), v) ∧ v.Extends t := by
  rcases failed_of_then_failed h with hunmade | ⟨made, u, hmade, -⟩
  · exact .inl hunmade
  · -- All members are made, so it is the name of one that is refused.
    obtain ⟨hfailed, rfl⟩ := Prod.mk.inj ((run_load_of_made hmade).symm.trans h)
    obtain ⟨first, m, rest, rfl, hm, hfirst, rfl, hdeclared⟩ :=
      TypeTable.declareEach_of_error (Prod.ext hfailed rfl)
    obtain ⟨before, refused, behind, v, hsplit, hnames, hname, hbefore, hextends⟩ :=
      MemberDeclaration.split_of_loadAll hmade
    refine .inr ⟨before, refused, behind, _, u, _, hsplit, hmade, ?_, hname ▸ hm,
      by rw [hname], ?_, hextends.withTypes _⟩
    · intro d hd
      obtain ⟨other, hother, hsame⟩ := List.mem_map.mp (hnames ▸ List.mem_map_of_mem hd)
      exact hsame ▸ hfirst other hother
    · rw [run_load_of_made hbefore, ← hextends.types, hdeclared]

/-- Loading stops with a fault. What is loaded by then is what another document declares: the types
before the one that fails, and of that type, if one of its members is refused for its name, the
members before that one. -/
inductive Stops (env : Environment) :
    Store → List TypeDeclaration → ConfigurationFault → List TypeDeclaration → Prop
  | unmade {s t : Store} {declaration : TypeDeclaration} {rest : List TypeDeclaration}
      {cause : DeclarationFault}
      (h : (MemberDeclaration.loadAll env declaration.members).run.run s = (.error cause, t)) :
      Stops env s (declaration :: rest) (.inType declaration.name cause) []
  | refused {s t : Store} {name : String} {before behind : List MemberDeclaration}
      {refused : MemberDeclaration} {rest : List TypeDeclaration} {made : List Member}
      (hmade : (MemberDeclaration.loadAll env (before ++ refused :: behind)).run.run s =
        (.ok made, t))
      (hbefore : ∀ d ∈ before, isReservedName d.name = false)
      (hrefused : isReservedName refused.name = true) :
      Stops env s (⟨name, before ++ refused :: behind⟩ :: rest)
        (.inType name (.member (.reservedName refused.name))) [⟨name, before⟩]
  | later {s t : Store} {declaration : TypeDeclaration} {rest kept : List TypeDeclaration}
      {fault : ConfigurationFault} (h : (declaration.load env).run.run s = (.ok (), t))
      (hrest : Stops env t rest fault kept) :
      Stops env s (declaration :: rest) fault (declaration :: kept)

theorem loadAll_cons_of_ok {declaration : TypeDeclaration} {rest : List TypeDeclaration} {u : Store}
    (h : (declaration.load env).run.run s = (.ok (), u)) :
    (loadAll env (declaration :: rest)).run.run s = (loadAll env rest).run.run u := by
  have hfirst : ((declaration.load env).mapFailure
      (ConfigurationFault.inType declaration.name)).run.run s = (.ok (), u) := by
    rw [run_mapFailure, h]
    rfl
  rw [loadAll, run_then_of_ok hfirst]

theorem stops_of_failed {declarations : List TypeDeclaration} {fault : ConfigurationFault}
    (h : (loadAll env declarations).run.run s = (.error fault, t)) :
    ∃ kept u, Stops env s declarations fault kept ∧
      (loadAll env kept).run.run s = (.ok (), u) ∧ u.Extends t := by
  induction declarations generalizing s with
  | nil => cases h
  | cons declaration rest ih =>
    rcases failed_of_then_failed h with hfirst | ⟨⟨⟩, u, hfirst, hrest⟩
    · obtain ⟨cause, rfl, hload⟩ := failed_of_mapFailure_failed hfirst
      obtain ⟨name, declared⟩ := declaration
      rcases load_of_failed hload with hunmade |
        ⟨before, refused, behind, made, u, v, rfl, hmade, hbefore, hrefused, rfl, hkept, hextends⟩
      · exact ⟨[], s, .unmade hunmade, rfl, MemberDeclaration.extends_of_loadAll hunmade⟩
      · refine ⟨_, v, .refused hmade hbefore hrefused, ?_, hextends⟩
        rw [loadAll_cons_of_ok hkept]
        rfl
    · have hload := ok_of_mapFailure_ok hfirst
      obtain ⟨kept, v, hstops, hkept, hextends⟩ := ih hrest
      exact ⟨declaration :: kept, v, .later hload hstops,
        (loadAll_cons_of_ok hload).trans hkept, hextends⟩

end TypeDeclaration

/-! ## What a load adds -/

/-- The members declared for types have been made, so one that is made next is none of them. -/
def Store.Numbered (s : Store) : Prop := ∀ name, ¬ s.types.HasNew s.made name

theorem Store.numbered_initial (shelf : Array Value) : (Store.initial shelf).Numbered := by
  rintro name ⟨m, hm, -⟩
  simp [TypeTable.typeMembers, NameMap.lookup, Store.initial, Store.empty] at hm

theorem Store.Numbered.extends {s t : Store} (hs : s.Numbered) (h : s.Extends t) :
    t.Numbered := by
  rintro name ⟨m, hm, hnew⟩
  rw [h.types] at hm
  exact hs name ⟨m, hm, hnew.mono h.made⟩

def Store.KeepsTypes (s t : Store) : Prop :=
  ∀ name, NameMap.holds name s.types = true → NameMap.holds name t.types = true

instance : Coherent Store.KeepsTypes where
  refl _ _ h := h
  trans h hrest name hname := hrest name (h name hname)

instance : Store.Declares Store.KeepsTypes where
  addCell _ _ _ h := h
  addScript _ _ _ h := h
  addList _ _ _ h := h
  nextMemberId _ _ h := h
  declareType s typeName name h := by
    rw [TypeTable.holds_declareType, h, Bool.true_or]
  declare typeName m s name h := by
    cases hdeclare : s.types.declare typeName m with
    | error refusal => rwa [after, Store.declare, run_read_then, hdeclare]
    | ok types =>
      rw [after, Store.declare, run_read_then, hdeclare]
      exact TypeTable.holds_of_declare hdeclare h

namespace TypeDeclaration

variable {env : Environment} {s t : Store}

theorem holds_of_load {declaration : TypeDeclaration}
    (h : (declaration.load env).run.run s = (.ok (), t)) :
    NameMap.holds declaration.name t.types = true := by
  obtain ⟨made, u, -, h⟩ := ok_of_then_ok h
  rw [run_write_then] at h
  have hkeeps := within_declareAll (R := KeepsTypes) declaration.name made
    { u with types := u.types.declareType declaration.name } declaration.name
  rw [after, h] at hkeeps
  refine hkeeps ?_
  rw [TypeTable.holds_declareType, sameName_refl, Bool.or_true]

theorem holds_of_loadAll {declarations : List TypeDeclaration}
    (h : (loadAll env declarations).run.run s = (.ok (), t)) :
    ∀ d ∈ declarations, NameMap.holds d.name t.types = true := by
  induction declarations generalizing s with
  | nil => simp
  | cons declaration rest ih =>
    obtain ⟨⟨⟩, u, hfirst, hrest⟩ := ok_of_then_ok h
    have hload := holds_of_load (ok_of_mapFailure_ok hfirst)
    refine List.forall_mem_cons.mpr ⟨?_, ih hrest⟩
    have hkeeps := within_loadAll (R := KeepsTypes) env rest u declaration.name hload
    rwa [after, hrest] at hkeeps

theorem made_of_load {declaration : TypeDeclaration}
    (h : (declaration.load env).run.run s = (.ok (), t)) :
    ∃ made u, (MemberDeclaration.loadAll env declaration.members).run.run s = (.ok made, u) ∧
      TypeTable.declareEach declaration.name (u.types.declareType declaration.name) made =
        (.ok (), t.types) ∧ t.made = u.made := by
  obtain ⟨made, u, hmade, -⟩ := ok_of_then_ok h
  obtain ⟨houtcome, rfl⟩ := Prod.mk.inj ((run_load_of_made hmade).symm.trans h)
  exact ⟨made, u, hmade, Prod.ext houtcome rfl, rfl⟩

theorem made_le_of_load {declaration : TypeDeclaration}
    (h : (declaration.load env).run.run s = (.ok (), t)) : s.made ≤ t.made := by
  obtain ⟨made, u, hmade, -, hcount⟩ := made_of_load h
  rw [hcount]
  exact (MemberDeclaration.extends_of_loadAll hmade).made

theorem hasNew_of_load {declaration : TypeDeclaration} {count : Nat} (hcount : count ≤ s.made)
    (h : (declaration.load env).run.run s = (.ok (), t)) :
    (declaration.members ≠ [] → TypeTable.HasNew count t.types declaration.name) ∧
      ∀ name, TypeTable.HasNew count s.types name → TypeTable.HasNew count t.types name := by
  obtain ⟨made, u, hmade, hdeclares, -⟩ := made_of_load h
  have hextends := MemberDeclaration.extends_of_loadAll hmade
  have hnew (m : Member) (hm : m ∈ made) : m.IsNew count :=
    (MemberDeclaration.isNew_loadAll hmade m hm).1.mono hcount
  obtain ⟨hdeclared, hkeep⟩ := TypeTable.hasNew_of_declareEach hnew hdeclares
  refine ⟨fun hmembers => hdeclared ?_, fun other hother => hkeep other ?_⟩
  · rintro rfl
    exact hmembers (List.map_eq_nil_iff.mp (MemberDeclaration.names_loadAll hmade).symm)
  · rwa [TypeTable.HasNew, TypeTable.typeMembers_declareType, hextends.types]

/-- Every type that declares members has one that was not there before. -/
theorem hasNew_of_loadAll {declarations : List TypeDeclaration} {count : Nat}
    (hcount : count ≤ s.made) (h : (loadAll env declarations).run.run s = (.ok (), t)) :
    (∀ d ∈ declarations, d.members ≠ [] → TypeTable.HasNew count t.types d.name) ∧
      ∀ name, TypeTable.HasNew count s.types name → TypeTable.HasNew count t.types name := by
  induction declarations generalizing s with
  | nil =>
    cases h
    exact ⟨by simp, fun _ => id⟩
  | cons declaration rest ih =>
    obtain ⟨⟨⟩, u, hfirst, hrest⟩ := ok_of_then_ok h
    have hload := ok_of_mapFailure_ok hfirst
    obtain ⟨hdeclared, hkeep⟩ := hasNew_of_load hcount hload
    obtain ⟨hothers, hkeepRest⟩ := ih (Nat.le_trans hcount (made_le_of_load hload)) hrest
    refine ⟨List.forall_mem_cons.mpr ⟨fun hmembers => ?_, hothers⟩, fun name hname => ?_⟩
    · exact hkeepRest _ (hdeclared hmembers)
    · exact hkeepRest name (hkeep name hname)

theorem numbered_of_load {declaration : TypeDeclaration} (hs : s.Numbered)
    (h : (declaration.load env).run.run s = (.ok (), t)) : t.Numbered := by
  obtain ⟨made, u, hmade, hdeclares, hcount⟩ := made_of_load h
  have hextends := MemberDeclaration.extends_of_loadAll hmade
  have hold (m : Member) (hm : m ∈ made) : ¬ m.IsNew u.made :=
    (MemberDeclaration.isNew_loadAll hmade m hm).2
  intro name hnew
  rw [hcount] at hnew
  -- A member with a later number would have been in the table before.
  have hbefore := TypeTable.hasNew_before_declareEach hold hdeclares hnew
  rw [TypeTable.HasNew, TypeTable.typeMembers_declareType, hextends.types] at hbefore
  obtain ⟨m, hm, hisNew⟩ := hbefore
  exact hs name ⟨m, hm, hisNew.mono hextends.made⟩

theorem numbered_of_loadAll {declarations : List TypeDeclaration} (hs : s.Numbered)
    (h : (loadAll env declarations).run.run s = (.ok (), t)) : t.Numbered := by
  induction declarations generalizing s with
  | nil =>
    cases h
    exact hs
  | cons declaration rest ih =>
    obtain ⟨⟨⟩, u, hfirst, hrest⟩ := ok_of_then_ok h
    exact ih (numbered_of_load hs (ok_of_mapFailure_ok hfirst)) hrest

def AddsNothing (table : TypeTable) (declaration : TypeDeclaration) : Prop :=
  declaration.members = [] ∧ NameMap.holds declaration.name table = true

theorem types_of_loadAll {declarations : List TypeDeclaration}
    (h : (loadAll env declarations).run.run s = (.ok (), t))
    (hdeclared : ∀ d ∈ declarations, d.AddsNothing s.types) : t.types = s.types := by
  induction declarations generalizing s with
  | nil =>
    cases h
    rfl
  | cons declaration rest ih =>
    obtain ⟨name, members⟩ := declaration
    obtain ⟨⟨hmembers, hname⟩, hothers⟩ := List.forall_mem_cons.mp hdeclared
    obtain rfl : members = [] := hmembers
    have hmade : (MemberDeclaration.loadAll env []).run.run s = (.ok [], s) := by
      unfold MemberDeclaration.loadAll
      rfl
    have hload : (load env ⟨name, []⟩).run.run s = (.ok (), s) := by
      have htypes : s.types.declareType name = s.types := if_pos hname
      rw [run_load_of_made hmade, htypes]
      rfl
    exact ih ((loadAll_cons_of_ok hload).symm.trans h) hothers

end TypeDeclaration

/-! ## Failed documents -/

/-- The types are shown as before: the same names, and for each the same members. -/
structure Store.SameTypes (s t : Store) : Prop where
  names : t.types.typeNames = s.types.typeNames
  members : ∀ name, t.types.typeMembers name = s.types.typeMembers name

namespace TypeDeclaration

variable {env : Environment} {s t : Store}

/-- The failed load leaves what a shorter document declares. So the types are as they were if and
only if that document adds nothing to them. -/
def LeavesShorter (env : Environment) (s : Store) (declarations : List TypeDeclaration)
    (fault : ConfigurationFault) (t : Store) : Prop :=
  ∃ kept u, Stops env s declarations fault kept ∧
    (loadAll env kept).run.run s = (.ok (), u) ∧ u.Extends t ∧
    ((∀ d ∈ kept, d.AddsNothing s.types) → t.types = s.types) ∧
    (t.types.typeNames = s.types.typeNames →
      ∀ d ∈ kept, NameMap.holds d.name s.types = true) ∧
    (s.Numbered → t.Numbered ∧ (s.SameTypes t ↔ ∀ d ∈ kept, d.AddsNothing s.types))

theorem leavesShorter_of_failed {declarations : List TypeDeclaration} {fault : ConfigurationFault}
    (h : (loadAll env declarations).run.run s = (.error fault, t)) :
    LeavesShorter env s declarations fault t := by
  obtain ⟨kept, u, hstops, hkept, hextends⟩ := stops_of_failed h
  have hsame (hnothing : ∀ d ∈ kept, d.AddsNothing s.types) : t.types = s.types := by
    rw [hextends.types, types_of_loadAll hkept hnothing]
  have hnames (hnames : t.types.typeNames = s.types.typeNames) :
      ∀ d ∈ kept, NameMap.holds d.name s.types = true := by
    intro d hd
    have hdeclared := holds_of_loadAll hkept d hd
    rwa [← hextends.types, TypeTable.holds_typeNames, hnames, ← TypeTable.holds_typeNames]
      at hdeclared
  refine ⟨kept, u, hstops, hkept, hextends, hsame, hnames, fun hnumbered =>
    ⟨(numbered_of_loadAll hnumbered hkept).extends hextends,
      fun hshown d hd => ⟨?_, hnames hshown.names d hd⟩, fun hnothing => ?_⟩⟩
  · refine Decidable.byContradiction fun hmembers => ?_
    -- A member that is declared now is new to the table, and the table has none of those.
    obtain ⟨m, hm, hnew⟩ := (hasNew_of_loadAll (Nat.le_refl _) hkept).1 d hd hmembers
    rw [← hextends.types, hshown.members] at hm
    exact hnumbered d.name ⟨m, hm, hnew⟩
  · have htypes := hsame hnothing
    exact ⟨by rw [htypes], fun name => by rw [htypes]⟩

/-- A document that can not be read leaves the store as it was. One that can be read and fails
leaves what a shorter document declares, whatever its declarations are. -/
theorem leaves_of_failed (env : Environment) (s : Store) :
    (∀ {declarations : List TypeDeclaration} {fault : ConfigurationFault} {t : Store},
      (loadAll env declarations).run.run s = (.error fault, t) →
        LeavesShorter env s declarations fault t) ∧
    ∀ {text : String} {fault : ConfigurationFault} {t : Store},
      (env.loadTypes text).run.run s = (.error fault, t) →
        (ofDocument? text = none ∧ fault = .noDocument ∧ t = s) ∨
          ∃ declarations, ofDocument? text = some declarations ∧
            LeavesShorter env s declarations fault t := by
  refine ⟨leavesShorter_of_failed, fun {text fault t} h => ?_⟩
  unfold Environment.loadTypes at h
  cases hread : ofDocument? text with
  | none =>
    rw [hread] at h
    cases h
    exact .inl ⟨rfl, rfl, rfl⟩
  | some declarations =>
    rw [hread] at h
    exact .inr ⟨declarations, rfl, leavesShorter_of_failed h⟩

def half : TypeDeclaration :=
  ⟨"Point", [.declare "Size" false (.note .null), .declare "PSBase" false (.note .null)]⟩

def afterHalf : Store :=
  (Store.initial #[]).after (loadAll (CommandHost.bare.environment 1) [half]).run

theorem leaves_of_failed_half :
    (Store.initial #[]).Numbered ∧
      LeavesShorter (CommandHost.bare.environment 1) (.initial #[]) [half]
        (.inType "Point" (.member (.reservedName "PSBase"))) afterHalf :=
  ⟨numbered_initial #[], (leaves_of_failed _ _).1 rfl⟩

/-- Loading fails, and the type is declared with its first member. -/
theorem typeNames_half :
    ((loadAll (CommandHost.bare.environment 1) [half]).run.run (.initial #[])).1 =
      .error (.inType "Point" (.member (.reservedName "PSBase"))) ∧
    (Store.initial #[]).types.typeNames = [] ∧ afterHalf.types.typeNames = ["Point"] ∧
    (afterHalf.types.typeMembers "Point").map (·.name) = ["Size"] :=
  ⟨rfl, rfl, rfl, rfl⟩

end TypeDeclaration

end DynamicMembers
