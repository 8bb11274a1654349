import DynamicMembers.Proofs.Declaration.Representation
import DynamicMembers.Proofs.Declaration.TypeChains

/-! # Types as they are declared

Documents are loaded one after another, each with types that may be declared before, and members
that may be declared before. What comes of it can be read off the declarations
(`Store.Reachable.represents`): the types in the order in which they were first declared, and for
each type its members, each name at the place where it came first, as what it was declared last.

One member is made for each declaration, and the list of a type comes to what its members before and
the members made settle to. So two loads are as good as one of all declarations
(`Store.Gains.trans`).
-/
namespace DynamicMembers
open Store

/-! ## Tables -/

namespace TypeTable

variable {table types : TypeTable} {typeName name : String} {m : Member} {members : List Member}

/-- The list of each type is as good as a plain one. -/
def Kept (table : TypeTable) : Prop := ∀ entry ∈ table, entry.2.Refines entry.2.members

theorem lasts_kept : Lasts Kept :=
  lasts_forall .empty MemberList.lasts_refines.add

theorem lasts_detached : Lasts fun table => ∀ entry ∈ table, ∀ m ∈ entry.2.members,
    m.flags.attached = false := by
  refine lasts_forall (Q := fun l => ∀ m ∈ l.members, m.flags.attached = false)
    (fun _ hm => absurd hm List.not_mem_nil) fun hl hadd other hother => ?_
  rcases (MemberList.members_of_add hadd).2 other hother with rfl | hold
  · rfl
  · exact hl other hold

theorem Kept.lookup (ht : table.Kept) (typeName : String) :
    ((NameMap.lookup typeName table).getD .empty).Refines (table.typeMembers typeName) := by
  rw [typeMembers, NameMap.lookup_eq_find?]
  cases hfind : table.find? fun entry => sameName entry.1 typeName with
  | none => exact .empty
  | some entry => exact ht entry (List.mem_of_find?_eq_some hfind)

theorem Kept.pairwise (ht : table.Kept) (typeName : String) :
    (table.typeMembers typeName).Pairwise fun m other => sameName m.name other.name = false :=
  (ht.lookup typeName).exact.distinct

theorem typeNames_declareType (table : TypeTable) (name : String) :
    (table.declareType name).typeNames =
      table.typeNames ++ firstByName id (table.typeNames.map foldCase) [name] := by
  have hclaimed : (table.typeNames.map foldCase).contains (foldCase name) =
      NameMap.holds name table := by
    rw [holds_typeNames, Bool.eq_iff_iff]
    simp [foldCase_eq_iff]
  have hfirst : firstByName id (table.typeNames.map foldCase) [name] =
      if NameMap.holds name table then [] else [name] := by
    rw [← hclaimed]
    rfl
  rw [hfirst, declareType]
  split
  · exact (List.append_nil _).symm
  next hnew =>
    rw [NameMap.insert_of_not_holds (Bool.eq_false_iff.mpr hnew), typeNames, typeNames,
      List.map_append]
    rfl

theorem typeNames_of_declare (h : table.declare typeName m = .ok types)
    (hname : NameMap.holds typeName table = true) : types.typeNames = table.typeNames := by
  obtain ⟨_, l, -, rfl⟩ := add_of_declare h
  exact NameMap.keys_insert_of_lookup (NameMap.holds_eq_isSome_lookup _ _ ▸ hname) l

theorem typeMembers_eq_of_declare (ht : table.Kept) (h : table.declare typeName m = .ok types)
    (name : String) : types.typeMembers name =
      if sameName typeName name then
        PlainList.put (table.typeMembers name) (m.setFlag .attached false)
      else table.typeMembers name := by
  obtain ⟨_, l, hadd, rfl⟩ := add_of_declare h
  by_cases hname : sameName typeName name = true
  · have hsame : table.typeMembers name = table.typeMembers typeName := by
      rw [typeMembers, typeMembers, NameMap.lookup_congr hname]
    rw [if_pos hname, typeMembers_insert_self hname, hsame,
      ((ht.lookup typeName).add hadd).2.members]
  · rw [if_neg hname, typeMembers_insert_other (Bool.eq_false_iff.mpr hname)]

theorem of_declareEach (ht : table.Kept) (hname : NameMap.holds typeName table = true)
    (h : declareEach typeName table members = (.ok (), types)) :
    types.typeNames = table.typeNames ∧ ∀ name, types.typeMembers name =
      if sameName typeName name then
        (members.map (·.setFlag .attached false)).foldl PlainList.put (table.typeMembers name)
      else table.typeMembers name := by
  induction members generalizing table with
  | nil =>
    cases h
    exact ⟨rfl, fun name => by rw [List.map_nil, List.foldl_nil, ite_self]⟩
  | cons m rest ih =>
    cases hdeclare : TypeTable.declare table typeName m with
    | error =>
      rw [declareEach, hdeclare] at h
      cases h
    | ok middle =>
      rw [declareEach, hdeclare] at h
      obtain ⟨hnames, hmembers⟩ := ih (lasts_kept.declare ht hdeclare)
        (holds_of_declare hdeclare hname) h
      refine ⟨hnames.trans (typeNames_of_declare hdeclare hname), fun name => ?_⟩
      rw [hmembers, typeMembers_eq_of_declare ht hdeclare]
      split <;> rfl

end TypeTable

/-! ## What is loaded -/

/-- A type as it is declared, and the environment it is loaded in. -/
structure TypeLoad where
  env : Environment
  declaration : TypeDeclaration

/-- The members that are declared for a type, in order, each with its environment. -/
def TypeLoad.membersOf (typeName : String) (loads : List TypeLoad) :
    List (Environment × MemberDeclaration) :=
  loads.flatMap fun load =>
    if sameName load.declaration.name typeName then load.declaration.members.map (load.env, ·)
    else []

theorem TypeLoad.membersOf_append (typeName : String) (loads others : List TypeLoad) :
    membersOf typeName (loads ++ others) = membersOf typeName loads ++ membersOf typeName others :=
  List.flatMap_append

namespace Store

/-- What the types have in the second store comes from the first and from what has been loaded. -/
structure Gains (s : Store) (loads : List TypeLoad) (t : Store) : Prop where
  /-- Behind the types there were, each that is new stands where it was declared first. -/
  typeNames : t.types.typeNames = s.types.typeNames ++
    firstByName id (s.types.typeNames.map foldCase) (loads.map (·.declaration.name))
  /-- One member has been made for each declaration, and is what it was declared to be. The members
  that the type had and those that have been made settle to what it has. -/
  typeMembers : ∀ typeName, ∃ made,
    List.Forall₂ (fun declared m => declared.2.Represented declared.1 t false m)
      (TypeLoad.membersOf typeName loads) made ∧
    t.types.typeMembers typeName = PlainList.settled (s.types.typeMembers typeName ++ made)
  /-- What the members there were refer to is as it was. -/
  content : s.KeepsContent t

namespace Gains

variable {env : Environment} {s t u : Store} {loads others : List TypeLoad}

theorem refl (hs : s.types.Kept) : s.Gains [] s where
  typeNames := (List.append_nil _).symm
  typeMembers typeName := by
    refine ⟨[], .nil, ?_⟩
    rw [List.append_nil, PlainList.settled_of_pairwise (hs.pairwise typeName)]
  content := Coherent.refl s

theorem trans (h : s.Gains loads t) (hrest : t.Gains others u) : s.Gains (loads ++ others) u where
  typeNames := by
    have hkeys (key : String) : key ∈ t.types.typeNames.map foldCase ↔
        key ∈ (loads.map (·.declaration.name)).map (foldCase ∘ id) ++
          s.types.typeNames.map foldCase := by
      rw [h.typeNames, List.map_append, List.mem_append, List.mem_append, or_comm]
      exact mem_keys_firstByName
    rw [hrest.typeNames, firstByName_congr hkeys, h.typeNames, List.append_assoc, List.map_append,
      firstByName_append_eq]
  typeMembers typeName := by
    obtain ⟨made, hmade, ht⟩ := h.typeMembers typeName
    obtain ⟨more, hmore, hu⟩ := hrest.typeMembers typeName
    refine ⟨made ++ more, ?_, ?_⟩
    · rw [TypeLoad.membersOf_append]
      exact List.rel_append (hmade.imp fun _ _ hd => hd.mono hrest.content) hmore
    · rw [hu, ht, PlainList.settled_settled_append, List.append_assoc]
  content := Coherent.trans h.content hrest.content

theorem of_load {declaration : TypeDeclaration} (hs : s.types.Kept)
    (h : (declaration.load env).run.run s = (.ok (), t)) : s.Gains [⟨env, declaration⟩] t := by
  have hcontent : s.KeepsContent t := by
    have hkeeps := TypeDeclaration.within_load (R := KeepsContent) env declaration s
    rwa [after, h] at hkeeps
  obtain ⟨name, declarations⟩ := declaration
  obtain ⟨made, u, hmade, -⟩ := ok_of_then_ok h
  obtain ⟨houtcome, rfl⟩ := Prod.mk.inj ((TypeDeclaration.run_load_of_made hmade).symm.trans h)
  have htypes : u.types = s.types := (MemberDeclaration.extends_of_loadAll hmade).types
  have hkept : (u.types.declareType name).Kept :=
    TypeTable.lasts_kept.declareType name (htypes ▸ hs)
  have hheld : NameMap.holds name (u.types.declareType name) = true := by
    rw [TypeTable.holds_declareType, sameName_refl, Bool.or_true]
  obtain ⟨hnames, hmembers⟩ := TypeTable.of_declareEach hkept hheld (Prod.ext houtcome rfl)
  refine ⟨?_, fun typeName => ?_, hcontent⟩
  · exact hnames.trans (htypes ▸ TypeTable.typeNames_declareType u.types name)
  · rw [hmembers, TypeTable.typeMembers_declareType, htypes]
    by_cases hname : sameName name typeName = true
    · refine ⟨made.map (·.setFlag .attached false), ?_, ?_⟩
      · have hdeclared : TypeLoad.membersOf typeName [⟨env, ⟨name, declarations⟩⟩] =
            declarations.map (env, ·) := by
          simp [TypeLoad.membersOf, hname]
        have hrest (types : TypeTable) : u.KeepsContent { u with types := types } :=
          .of_parts (.of_same rfl rfl (Nat.le_refl _) (Nat.le_refl _)) rfl
        rw [hdeclared, List.forall₂_map_left_iff, List.forall₂_map_right_iff]
        exact (MemberDeclaration.represented_loadAll declarations hmade).imp
          fun _ _ hd => (hd.mono (hrest _)).template
      · rw [if_pos hname, PlainList.foldl_put_of_pairwise (hs.pairwise typeName)]
    · refine ⟨[], ?_, ?_⟩
      · simp [TypeLoad.membersOf, hname]
      · rw [if_neg hname, List.append_nil, PlainList.settled_of_pairwise (hs.pairwise typeName)]

end Gains

theorem Reachable.load {env : Environment} {declaration : TypeDeclaration} {s t : Store}
    (hs : s.Reachable) (h : (declaration.load env).run.run s = (.ok (), t)) : t.Reachable := by
  have hsteps := TypeDeclaration.within_load (R := Steps) env declaration s
  rw [Store.after, h] at hsteps
  exact hs.steps hsteps

theorem Reachable.gains_loadAll {env : Environment} {declarations : List TypeDeclaration}
    {s t : Store} (hs : s.Reachable)
    (h : (TypeDeclaration.loadAll env declarations).run.run s = (.ok (), t)) :
    t.Reachable ∧ s.Gains (declarations.map (⟨env, ·⟩)) t := by
  induction declarations generalizing s with
  | nil =>
    cases h
    exact ⟨hs, .refl (hs.types_of_lasts TypeTable.lasts_kept)⟩
  | cons declaration rest ih =>
    obtain ⟨⟨⟩, u, hfirst, hrest⟩ := ok_of_then_ok h
    have hload := ok_of_mapFailure_ok hfirst
    obtain ⟨ht, hgains⟩ := ih (hs.load hload) hrest
    exact ⟨ht, (Gains.of_load (hs.types_of_lasts TypeTable.lasts_kept) hload).trans hgains⟩

end Store

/-! ## Documents -/

/-- The types of a document, and the environment in which they are loaded. -/
structure Document where
  env : Environment
  types : List TypeDeclaration

namespace Document

def loads (document : Document) : List TypeLoad :=
  document.types.map (⟨document.env, ·⟩)

/-- The documents are loaded one after another, all of them without a fault. -/
inductive LoadedInTurn : Store → List Document → Store → Prop
  | done (s : Store) : LoadedInTurn s [] s
  | next {s t u : Store} {document : Document} {rest : List Document}
      (h : (TypeDeclaration.loadAll document.env document.types).run.run s = (.ok (), t))
      (hrest : LoadedInTurn t rest u) : LoadedInTurn s (document :: rest) u

/-- The store when a document has been loaded, or as far as it could be. -/
def loadInto (document : Document) (s : Store) : Store :=
  s.after (TypeDeclaration.loadAll document.env document.types).run

theorem run_loadAll_of_isSome {document : Document} {s : Store}
    (h : ((TypeDeclaration.loadAll document.env document.types).run.run s).1.toOption.isSome =
      true) :
    (TypeDeclaration.loadAll document.env document.types).run.run s =
      (.ok (), document.loadInto s) := by
  refine Prod.ext ?_ rfl
  cases houtcome : ((TypeDeclaration.loadAll document.env document.types).run.run s).1 with
  | error fault =>
    rw [houtcome] at h
    cases h
  | ok => rfl

end Document

namespace Store

/-- The types are what the documents declare them to be, besides what they were before. -/
structure Represents (s : Store) (documents : List Document) (t : Store) : Prop where
  gains : s.Gains (documents.flatMap Document.loads) t
  /-- Each type is there under one name. -/
  distinct : t.types.typeNames.Pairwise fun name other => sameName name other = false
  /-- The members that a type had come first, each in its place, if not another of its name has come
  there. -/
  placed : ∀ typeName, ∃ placed added, t.types.typeMembers typeName = placed ++ added ∧
    List.Forall₂ (fun old m => sameName old.name m.name = true) (s.types.typeMembers typeName)
      placed
  detached : ∀ typeName, ∀ m ∈ t.types.typeMembers typeName, m.flags.attached = false
  /-- The scripts of what has been loaded, at whatever level, are run on copies. -/
  runsOnCopies : ∀ env (declaration : MemberDeclaration) m inner,
    declaration.Represented env t false m → t.Includes m inner →
      ∀ run ∈ inner.kind.scripts, run.1.RunsOnCopies run.2

variable {s t : Store} {documents : List Document}

theorem Reachable.gains (hs : s.Reachable) (h : Document.LoadedInTurn s documents t) :
    t.Reachable ∧ s.Gains (documents.flatMap Document.loads) t := by
  induction h with
  | done s => exact ⟨hs, .refl (hs.types_of_lasts TypeTable.lasts_kept)⟩
  | next hfirst _ ih =>
    obtain ⟨hreached, hgains⟩ := hs.gains_loadAll hfirst
    obtain ⟨ht, hothers⟩ := ih hreached
    exact ⟨ht, hgains.trans hothers⟩

/-- Whatever there was before and whichever documents are loaded in turn, the types are what is
declared. -/
theorem Reachable.represents (hs : s.Reachable) (h : Document.LoadedInTurn s documents t) :
    s.Represents documents t := by
  obtain ⟨ht, hgains⟩ := hs.gains h
  refine ⟨hgains, List.pairwise_map.mpr ht.distinct_types, fun typeName => ?_,
    fun typeName m hm => ?_, fun _ _ _ _ hdeclared hinner => hdeclared.runsOnCopies hinner⟩
  · obtain ⟨made, -, hmembers⟩ := hgains.typeMembers typeName
    rw [hmembers]
    have hkept := hs.types_of_lasts TypeTable.lasts_kept
    exact PlainList.exists_settled_append (hkept.pairwise typeName) made
  · unfold TypeTable.typeMembers at hm
    split at hm
    · rename_i l hlookup
      obtain ⟨entry, hentry, rfl⟩ := NameMap.exists_mem_of_lookup hlookup
      exact ht.types_of_lasts TypeTable.lasts_detached entry hentry m hm
    · cases hm

/-- A type with members of three kinds, two of them in a set under one name. -/
def points : Document :=
  ⟨CommandHost.bare.environment 1, [⟨"Point",
    [.declare "Size" false (.note (.int 1)), .declare "Run" true (.scriptMethod "echo"),
      .declare "Parts" false (.memberSet true
        [.declare "X" false (.note .null), .declare "x" true (.aliasOf "Size" (some .string))])]⟩]⟩

def shapes : Document :=
  ⟨CommandHost.bare.environment 1, [⟨"Shape", []⟩,
    ⟨"POINT", [.declare "SIZE" true (.propertySet ["Run"]), .declare "Name" false (.note .null)]⟩]⟩

def shaped : Store := shapes.loadInto (points.loadInto (Store.initial #[]))

theorem Reachable.represents_shaped :
    (Store.initial #[]).Reachable ∧
      Document.LoadedInTurn (Store.initial #[]) [points, shapes] shaped ∧
      (Store.initial #[]).Represents [points, shapes] shaped ∧
      shaped.types.typeNames = ["Point", "Shape"] ∧
      (shaped.types.typeMembers "point").map (·.name) = ["SIZE", "Run", "Parts", "Name"] ∧
      (shaped.list ⟨0⟩).members.map (·.name) = ["x"] := by
  have hreached : (Store.initial #[]).Reachable := .initial #[]
  have hloaded : Document.LoadedInTurn (Store.initial #[]) [points, shapes] shaped :=
    .next (Document.run_loadAll_of_isSome (by decide +kernel))
      (.next (Document.run_loadAll_of_isSome (by decide +kernel)) (.done shaped))
  exact ⟨hreached, hloaded, Reachable.represents hreached hloaded, by decide +kernel,
    by decide +kernel, by decide +kernel⟩

end Store

end DynamicMembers
