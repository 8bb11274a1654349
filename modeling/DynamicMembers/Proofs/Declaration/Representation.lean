import DynamicMembers.Proofs.Declaration.FailedLoad
import DynamicMembers.Proofs.Declaration.Isolation
import DynamicMembers.Proofs.Script.Runs
import DynamicMembers.Proofs.Store.SettledLists
import Mathlib.Data.Option.Basic

/-! # Members as they are declared

A member that is loaded has the name that is declared and the mark of a hidden member if that is
declared, and it is of the declared kind: the note has the value, the alias its reference and
conversion, the script is one of the text, and the native callable is the one of the name. A
member set has been made of one member for each declaration that is nested in it, which are the same
to their declarations (`DeclaredKind.Represented`). All that is kept as long as nothing is written
to the store but what is made later (`DeclaredKind.Represented.mono`).

A declared script runs on a copy of its template, whatever ran before, and what becomes of the copy
is dropped (`ScriptId.RunsOnCopies`).
-/
namespace DynamicMembers
open Store

/-! ## Content that stays -/

namespace Store

instance {P : Part → Prop} : Coherent (Keeps P) := ⟨.refl, .trans⟩

/-- What is declared or loaded leaves all that was there. -/
instance : Declares (Keeps fun _ => True) where
  addCell v _ := .addCell v
  addScript _ _ := .of_same rfl rfl (by simp) (Nat.le_refl _)
  addList _ _ := .addList _
  nextMemberId _ := .nextMemberId
  declareType _ _ := .of_same rfl rfl (Nat.le_refl _) (Nat.le_refl _)
  declare := within_declare fun _ _ => .of_same rfl rfl (Nat.le_refl _) (Nat.le_refl _)

/-- The cells, lists and scripts that there are stay as they are. -/
structure KeepsContent (s t : Store) : Prop where
  parts : s.Keeps (fun _ => True) t
  script : ∀ {i}, s.Has (.script i) → t.script i = s.script i

namespace KeepsContent

variable {s t : Store}

theorem of_parts (h : s.Keeps (fun _ => True) t) (hscripts : t.scripts = s.scripts) :
    s.KeepsContent t :=
  ⟨h, fun _ => by rw [Store.script, Store.script, hscripts]⟩

theorem has (h : s.KeepsContent t) {p : Part} (hp : s.Has p) : t.Has p := h.parts.has trivial hp

end KeepsContent

instance : Coherent KeepsContent where
  refl s := .of_parts (.refl s) rfl
  trans h hrest := ⟨h.parts.trans hrest.parts, fun hi =>
    (hrest.script (h.has hi)).trans (h.script hi)⟩

instance : Declares KeepsContent where
  addCell v _ := .of_parts (.addCell v) rfl
  addScript s script := by
    refine ⟨Grows.addScript s script, fun {i} (hi : i.index < s.scripts.size) => ?_⟩
    show (s.scripts.push script)[i.index]?.getD _ = _
    rw [Array.getElem?_push_lt hi, Store.script, Array.getElem?_eq_getElem hi]
  addList _ _ := .of_parts (.addList _) rfl
  nextMemberId _ := .of_parts .nextMemberId rfl
  declareType _ _ := .of_parts (.of_same rfl rfl (Nat.le_refl _) (Nat.le_refl _)) rfl
  declare := within_declare fun _ _ =>
    .of_parts (.of_same rfl rfl (Nat.le_refl _) (Nat.le_refl _)) rfl

/-- A script of this text, which is not compiled yet. -/
structure IsScript (s : Store) (text : String) (i : ScriptId) : Prop where
  there : s.Has (.script i)
  script : s.script i = ⟨text, none, none⟩

theorem IsScript.mono {s t : Store} {text : String} {i : ScriptId} (h : s.IsScript text i)
    (hkeeps : s.KeepsContent t) : t.IsScript text i :=
  ⟨hkeeps.has h.there, (hkeeps.script h.there).trans h.script⟩

end Store

theorem Store.isScript_mono {s t : Store} {text : Option String} {i : Option ScriptId}
    (h : Option.Rel s.IsScript text i) (hkeeps : s.KeepsContent t) :
    Option.Rel t.IsScript text i := by
  cases h with
  | none => exact .none
  | some h => exact .some (h.mono hkeeps)

def Environment.Calls (env : Environment) (name : String) (code : CodeReference) : Prop :=
  NameMap.lookup name env.code = some code

namespace ScriptId

/-- The script is run on copies: what is run is its template as it is, the blocks of the script are
left alone meanwhile, and of what has run nothing is put back. -/
def RunsOnCopies (i : ScriptId) (policy : RunPolicy) : Prop :=
  ∀ {env : Environment} {s called : Store} {template : Block} {blocks : Blocks Block}
    {owner : Option ObjectId} {args : List Value} {outcome : Except Failure Value},
    (i.prepare env).run.run s = (.ok (template, blocks), s) →
    (env.evaluate template.text ⟨owner, args, template.ran.runs, policy.mode⟩).run.run
      (s.begun i blocks policy.mode) = (outcome, called) →
    (i.run env owner args policy).run.run s = (outcome.mapError .ofFailure, called)

theorem runsOnCopies (i : ScriptId) {policy : RunPolicy} (h : policy.onCopy = true) :
    i.RunsOnCopies policy := by
  intro env s called template blocks owner args outcome hprepare hcall
  let turn : Blocks.Turn Block := ⟨template, false⟩
  have hout : blocks.checkOut template policy.onCopy = (turn.block, turn.isShared, blocks) := by
    rw [h]
    rfl
  exact run_of_prepared hprepare hout hcall

end ScriptId

/-! ## Representation -/

namespace MemberDeclaration

def hidden : MemberDeclaration → Bool
  | declare _ hidden _ => hidden

def kind : MemberDeclaration → DeclaredKind
  | declare _ _ kind => kind

/-- The member has the name and the marks that are declared, and no owner. -/
structure Bears (attached : Bool) (declaration : MemberDeclaration) (m : Member) : Prop where
  name : m.name = declaration.name
  flags : m.flags = (MemberFlags.initial.set .hidden declaration.hidden).set .attached attached
  owner : m.owner = none

end MemberDeclaration

/-- The kind of a member is what it is declared to be. -/
inductive DeclaredKind.Represented (env : Environment) (s : Store) :
    DeclaredKind → MemberKind → Prop
  | note {v : Value} {c : CellId} (hthere : s.Has (.cell c)) (hvalue : s.cell c = v) :
      Represented env s (.note v) (.note c)
  | aliasOf (reference : String) (conversion : Option ValueType) :
      Represented env s (.aliasOf reference conversion) (.aliasOf reference conversion)
  | script {getter setter : Option String} {get set : Option ScriptId}
      (hget : Option.Rel s.IsScript getter get) (hset : Option.Rel s.IsScript setter set) :
      Represented env s (.script getter setter) (.script get set ⟨true, .propagate⟩)
  | code {getter setter : Option String} {get set : Option CodeReference}
      (hget : Option.Rel env.Calls getter get) (hset : Option.Rel env.Calls setter set) :
      Represented env s (.code getter setter) (.code get set)
  | scriptMethod {text : String} {i : ScriptId} (h : s.IsScript text i) :
      Represented env s (.scriptMethod text) (.scriptMethod i ⟨true, .propagate⟩)
  | codeMethod {name : String} {code : CodeReference} (h : env.Calls name code) :
      Represented env s (.codeMethod name) (.codeMethod code)
  | propertySet (references : List String) :
      Represented env s (.propertySet references) (.propertySet references)
  /-- One member has been made for each declaration. The list has what they settle to. -/
  | memberSet {inherits : Bool} {declarations : List MemberDeclaration} {l : ListId}
      {made : List Member} (hthere : s.Has (.list l))
      (hlist : (s.list l).members = PlainList.settled made)
      (hlength : declarations.length = made.length)
      (hbears : ∀ declaration m, (declaration, m) ∈ declarations.zip made →
        declaration.Bears true m)
      (hkinds : ∀ declaration m, (declaration, m) ∈ declarations.zip made →
        Represented env s declaration.kind m.kind) :
      Represented env s (.memberSet inherits declarations) (.memberSet (.list l) inherits)

namespace MemberDeclaration

/-- The member is what is declared, attached or not. -/
structure Represented (env : Environment) (s : Store) (attached : Bool)
    (declaration : MemberDeclaration) (m : Member) : Prop where
  bears : declaration.Bears attached m
  kind : declaration.kind.Represented env s m.kind

end MemberDeclaration

namespace DeclaredKind.Represented

variable {env : Environment} {s t : Store} {kind : DeclaredKind} {made : MemberKind}

theorem mono (h : kind.Represented env s made) (hkeeps : s.KeepsContent t) :
    kind.Represented env t made := by
  induction h with
  | note hthere hvalue =>
    exact .note (hkeeps.has hthere) ((hkeeps.parts.cell trivial hthere).trans hvalue)
  | aliasOf => exact .aliasOf _ _
  | script hget hset => exact .script (isScript_mono hget hkeeps) (isScript_mono hset hkeeps)
  | code hget hset => exact .code hget hset
  | scriptMethod h => exact .scriptMethod (h.mono hkeeps)
  | codeMethod h => exact .codeMethod h
  | propertySet => exact .propertySet _
  | memberSet hthere hlist hlength hbears _ ih =>
    exact .memberSet (hkeeps.has hthere)
      ((congrArg MemberList.members (hkeeps.parts.list trivial hthere)).trans hlist) hlength hbears
      ih

theorem memberSet_of_forall₂ {inherits : Bool} {declarations : List MemberDeclaration} {l : ListId}
    {made : List Member} (hthere : s.Has (.list l))
    (hlist : (s.list l).members = PlainList.settled made)
    (hmade : List.Forall₂ (MemberDeclaration.Represented env s true) declarations made) :
    (DeclaredKind.memberSet inherits declarations).Represented env s
      (.memberSet (.list l) inherits) := by
  obtain ⟨hlength, hpairs⟩ := List.forall₂_iff_zip.mp hmade
  exact .memberSet hthere hlist hlength (fun _ _ hpair => (hpairs hpair).bears)
    fun _ _ hpair => (hpairs hpair).kind

theorem exists_mem_zip {declarations : List MemberDeclaration} {made : List Member} {m : Member}
    (hlength : declarations.length = made.length) (hm : m ∈ PlainList.settled made) :
    ∃ declaration, (declaration, m) ∈ declarations.zip made := by
  have hpairs : List.Forall₂ (fun declaration m => (declaration, m) ∈ declarations.zip made)
      declarations made := List.forall₂_iff_zip.mpr ⟨hlength, id⟩
  obtain ⟨declaration, -, hpair⟩ :=
    exists_mem_of_forall₂ hpairs (PlainList.mem_of_mem_settled hm)
  exact ⟨declaration, hpair⟩

theorem nested {l : ListId} {m : Member} (h : kind.Represented env s made)
    (hl : made.list? = some l) (hm : m ∈ (s.list l).members) :
    s.Has (.list l) ∧ ∃ declaration : MemberDeclaration, declaration.Represented env s true m := by
  cases h with
  | @memberSet inherits declarations k made hthere hlist hlength hbears hkinds =>
    obtain rfl : k = l := Option.some.inj hl
    obtain ⟨declaration, hpair⟩ := exists_mem_zip hlength (hlist ▸ hm)
    exact ⟨hthere, declaration, hbears _ _ hpair, hkinds _ _ hpair⟩
  | _ => cases hl

theorem onCopy {run : ScriptId × RunPolicy} (h : kind.Represented env s made)
    (hrun : run ∈ made.scripts) : run.2.onCopy = true := by
  cases h with
  | script =>
    obtain ⟨i, -, rfl⟩ := List.mem_map.mp hrun
    rfl
  | scriptMethod =>
    obtain rfl := List.mem_singleton.mp hrun
    rfl
  | _ => cases hrun

end DeclaredKind.Represented

namespace MemberDeclaration

variable {env : Environment} {s t : Store}

theorem Represented.mono {attached : Bool} {declaration : MemberDeclaration} {m : Member}
    (h : declaration.Represented env s attached m) (hkeeps : s.KeepsContent t) :
    declaration.Represented env t attached m :=
  ⟨h.bears, h.kind.mono hkeeps⟩

/-! ## Loads -/

theorem Represented.template {declaration : MemberDeclaration} {m : Member}
    (h : declaration.Represented env s true m) :
    declaration.Represented env s false (m.setFlag .attached false) :=
  ⟨⟨h.bears.name, congrArg (·.set .attached false) h.bears.flags, h.bears.owner⟩, h.kind⟩

/-- At every level, the scripts of what is declared are run on copies. -/
theorem Represented.runsOnCopies {attached : Bool} {declaration : MemberDeclaration}
    {m inner : Member} (h : declaration.Represented env s attached m)
    (hinner : s.Includes m inner) :
    ∀ run ∈ inner.kind.scripts, run.1.RunsOnCopies run.2 := by
  induction hinner generalizing declaration attached with
  | self => exact fun run hrun => run.1.runsOnCopies (h.kind.onCopy hrun)
  | nested hl hnested _ ih =>
    obtain ⟨-, _, hrepresented⟩ := h.kind.nested hl hnested
    exact ih hrepresented

theorem keepsContent_of_loadAll {declarations : List MemberDeclaration}
    {outcome : Except DeclarationFault (List Member)}
    (h : (loadAll env declarations).run.run s = (outcome, t)) : s.KeepsContent t := by
  have hkeeps := within_loadAll (R := KeepsContent) env declarations s
  rwa [after, h] at hkeeps

theorem isScript_loadScript {text : String} {i : ScriptId}
    (h : (loadScript env text).run.run s = (.ok i, t)) :
    t.IsScript text i ∧ s.KeepsContent t := by
  unfold loadScript at h
  split at h
  · cases h
    refine ⟨⟨?_, ?_⟩, Grows.addScript s _⟩
    · exact Nat.lt_of_lt_of_eq (Nat.lt_succ_self _) (Array.size_push _).symm
    · simp [Store.script]
  · cases h

theorem calls_findCode {name : String} {code : CodeReference}
    (h : (findCode env name).run.run s = (.ok code, t)) : env.Calls name code := by
  unfold findCode at h
  split at h
  · rename_i found hfound
    cases h
    exact hfound
  · cases h

theorem cases_of_mapM {α β : Type} {f : α → Run DeclarationFault β} {a : Option α} {b : Option β}
    (h : (a.mapM f).run.run s = (.ok b, t)) :
    (a = none ∧ b = none ∧ t = s) ∨
      ∃ x y, a = some x ∧ b = some y ∧ (f x).run.run s = (.ok y, t) := by
  cases a with
  | none =>
    cases h
    exact .inl ⟨rfl, rfl, rfl⟩
  | some x =>
    have hsome : (some x).mapM f = f x >>= fun y => pure (some y) := map_eq_pure_bind _ _
    rw [hsome] at h
    obtain ⟨y, u, hx, h⟩ := ok_of_then_ok h
    cases h
    exact .inr ⟨x, y, rfl, rfl, hx⟩

theorem isScript_mapM {text : Option String} {i : Option ScriptId}
    (h : (text.mapM (loadScript env)).run.run s = (.ok i, t)) :
    Option.Rel t.IsScript text i ∧ s.KeepsContent t := by
  rcases cases_of_mapM h with ⟨rfl, rfl, rfl⟩ | ⟨text, i, rfl, rfl, hload⟩
  · exact ⟨.none, Coherent.refl _⟩
  · obtain ⟨hscript, hkeeps⟩ := isScript_loadScript hload
    exact ⟨.some hscript, hkeeps⟩

theorem calls_mapM {name : Option String} {code : Option CodeReference}
    (h : (name.mapM (findCode env)).run.run s = (.ok code, t)) :
    Option.Rel env.Calls name code := by
  rcases cases_of_mapM h with ⟨rfl, rfl, -⟩ | ⟨name, code, rfl, rfl, hfind⟩
  · exact .none
  · exact .some (calls_findCode hfind)

mutual

theorem represented_loadKind : ∀ (kind : DeclaredKind) {s t : Store} {made : MemberKind},
    (loadKind env kind).run.run s = (.ok made, t) → kind.Represented env t made
  | .note v, s, t, made, h => by
    unfold loadKind at h
    cases h
    exact .note (has_addCell_self s v) (cell_addCell_self s v)
  | .aliasOf reference conversion, s, t, made, h => by
    unfold loadKind at h
    cases h
    exact .aliasOf reference conversion
  | .script getter setter, s, t, made, h => by
    unfold loadKind at h
    obtain ⟨get, u, hget, h⟩ := ok_of_then_ok h
    obtain ⟨set, v, hset, h⟩ := ok_of_then_ok h
    cases h
    obtain ⟨hset, hkeeps⟩ := isScript_mapM hset
    exact .script (isScript_mono (isScript_mapM hget).1 hkeeps) hset
  | .code getter setter, s, t, made, h => by
    unfold loadKind at h
    obtain ⟨get, u, hget, h⟩ := ok_of_then_ok h
    obtain ⟨set, v, hset, h⟩ := ok_of_then_ok h
    cases h
    exact .code (calls_mapM hget) (calls_mapM hset)
  | .scriptMethod script, s, t, made, h => by
    unfold loadKind at h
    obtain ⟨i, u, hscript, h⟩ := ok_of_then_ok h
    cases h
    exact .scriptMethod (isScript_loadScript hscript).1
  | .codeMethod code, s, t, made, h => by
    unfold loadKind at h
    obtain ⟨found, u, hcode, h⟩ := ok_of_then_ok h
    cases h
    exact .codeMethod (calls_findCode hcode)
  | .propertySet references, s, t, made, h => by
    unfold loadKind at h
    cases h
    exact .propertySet references
  | .memberSet inherits declarations, s, t, made, h => by
    unfold loadKind at h
    obtain ⟨loaded, u, hloaded, h⟩ := ok_of_then_ok h
    cases hl : MemberList.ofMembers loaded with
    | error refusal =>
      rw [hl] at h
      cases h
    | ok l =>
      rw [hl] at h
      cases h
      have hmembers := (congrArg MemberList.members (list_addList_self u l)).trans
        (MemberList.members_of_ofMembers hl)
      have hkeeps : u.KeepsContent (u.after (addList l)) := Grows.addList hl u
      exact .memberSet_of_forall₂ (has_addList_self u l) hmembers
        ((represented_loadAll declarations hloaded).imp fun _ _ hd => hd.mono hkeeps)

theorem represented_load : ∀ (declaration : MemberDeclaration) {s t : Store} {m : Member},
    (load env declaration).run.run s = (.ok m, t) → declaration.Represented env t true m
  | .declare name hidden kind, s, t, m, h => by
    unfold load at h
    obtain ⟨made, u, hkind, h⟩ := ok_of_then_ok h
    obtain ⟨defined, v, hdefine, h⟩ := ok_of_then_ok h
    cases h
    have hkind := represented_loadKind kind hkind
    have hdefine := ok_of_mapFailure_ok hdefine
    unfold Member.define at hdefine
    split at hdefine
    · cases hdefine
    · cases hdefine
      have hkeeps : u.KeepsContent (u.after nextMemberId) := Grows.nextMemberId u
      refine ⟨?_, ?_⟩
      · cases hidden <;> exact ⟨rfl, rfl, rfl⟩
      · cases hidden <;> exact hkind.mono hkeeps

theorem represented_loadAll : ∀ (declarations : List MemberDeclaration) {s t : Store}
    {members : List Member}, (loadAll env declarations).run.run s = (.ok members, t) →
    List.Forall₂ (Represented env t true) declarations members
  | [], s, t, members, h => by
    unfold loadAll at h
    cases h
    exact .nil
  | declaration :: rest, s, t, members, h => by
    obtain ⟨m, others, u, hm, hothers, rfl⟩ := ok_of_loadAll_cons h
    exact .cons ((represented_load declaration hm).mono (keepsContent_of_loadAll hothers))
      (represented_loadAll rest hothers)

end

end MemberDeclaration

end DynamicMembers
