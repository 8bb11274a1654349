import DynamicMembers.Command
import DynamicMembers.Declaration.Load
import DynamicMembers.Proofs.Store.Operations

/-! # What declarations and commands do to the store

Declarations are loaded within every relation that covers the making of members and
the declaring of them, also when loading fails half-way. Commands stay within the same
relations as members and views do, however deep they call each other, by induction on
the depth (`CommandHost.environment_within`). So every store that a session of commands
meets is reachable.
-/
namespace DynamicMembers
open Store

variable {R : Store → Store → Prop}

/-! ## Declarations -/

namespace MemberDeclaration

variable [Store.Grows R] (env : Environment)

theorem within_loadScript (text : String) : Within R (loadScript env text).run := by
  unfold loadScript
  split
  · exact Within.lift (x := addScript text) fun s => Grows.addScript s _
  · exact within_throw _

theorem within_findCode (name : String) : Within R (findCode env name).run := by
  unfold findCode
  split
  · exact within_ok _
  · exact within_throw _

theorem within_optional {α : Type} {load : String → Run DeclarationFault α}
    (h : ∀ text, Within R (load text).run) (text : Option String) :
    Within R (text.mapM load).run := by
  cases text with
  | none => exact within_ok _
  | some text => exact (h text).andThen fun _ => within_ok _

mutual

theorem within_loadKind : ∀ kind : DeclaredKind, Within R (loadKind env kind).run
  | .note v => by
    unfold loadKind
    exact (Grows.addCell v).lift.andThen fun _ => within_ok _
  | .aliasOf _ _ => by
    unfold loadKind
    exact within_ok _
  | .script getter setter => by
    unfold loadKind
    exact (within_optional (within_loadScript env) getter).andThen fun _ =>
      (within_optional (within_loadScript env) setter).andThen fun _ => within_ok _
  | .code getter setter => by
    unfold loadKind
    exact (within_optional (within_findCode env) getter).andThen fun _ =>
      (within_optional (within_findCode env) setter).andThen fun _ => within_ok _
  | .scriptMethod script => by
    unfold loadKind
    exact (within_loadScript env script).andThen fun _ => within_ok _
  | .codeMethod code => by
    unfold loadKind
    exact (within_findCode env code).andThen fun _ => within_ok _
  | .propertySet _ => by
    unfold loadKind
    exact within_ok _
  | .memberSet inherits members => by
    unfold loadKind
    refine (within_loadAll members).andThen fun loaded => ?_
    cases h : MemberList.ofMembers loaded with
    | ok l => exact (Grows.addList h).lift.andThen fun _ => within_ok _
    | error _ => exact within_throw _

theorem within_load : ∀ declaration : MemberDeclaration, Within R (load env declaration).run
  | .declare name hidden kind => by
    unfold load
    exact (within_loadKind kind).andThen fun kind =>
      ((Member.within_define name kind).mapFailure _).andThen fun _ => within_ok _

theorem within_loadAll : ∀ declarations : List MemberDeclaration,
    Within R (loadAll env declarations).run
  | [] => by
    unfold loadAll
    exact within_ok _
  | declaration :: rest => by
    unfold loadAll
    exact ((within_load declaration).mapFailure _).andThen fun _ =>
      (within_loadAll rest).andThen fun _ => within_ok _

end

end MemberDeclaration

/-- A relation that covers what is declared for types as well. -/
class Store.Declares (R : Store → Store → Prop) : Prop extends Grows R where
  declareType : ∀ (s : Store) name, R s { s with types := s.types.declareType name }
  declare : ∀ typeName m, Within R (Store.declare typeName m).run

instance : Store.Declares Steps where
  declareType _ name := .single (.declareType name)
  declare := stepwise_declare

namespace TypeDeclaration

variable [Store.Declares R] (env : Environment)

theorem within_declareAll (typeName : String) (members : List Member) :
    Within R (declareAll typeName members).run := by
  induction members with
  | nil => exact within_ok _
  | cons m rest ih => exact ((Declares.declare typeName m).mapFailure _).andThen fun _ => ih

theorem within_load (declaration : TypeDeclaration) : Within R (declaration.load env).run :=
  (MemberDeclaration.within_loadAll env declaration.members).andThen fun members =>
    (within_write fun s => Declares.declareType s _).andThen fun _ =>
      within_declareAll declaration.name members

theorem within_loadAll (declarations : List TypeDeclaration) :
    Within R (loadAll env declarations).run := by
  induction declarations with
  | nil => exact within_ok _
  | cons declaration rest ih =>
    exact ((within_load env declaration).mapFailure _).andThen fun _ => ih

end TypeDeclaration

theorem Environment.within_loadTypes [Store.Declares R] (env : Environment) (text : String) :
    Store.Within R (env.loadTypes text).run := by
  unfold loadTypes
  split
  · exact TypeDeclaration.within_loadAll env _
  · exact within_throw _

theorem Environment.stepwise_loadTypes (env : Environment) (text : String) :
    Stepwise (env.loadTypes text).run :=
  env.within_loadTypes text

/-- A relation that covers whatever may be done to a store. -/
class Store.Permits (R : Store → Store → Prop) : Prop extends Writes R, Declares R where
  wrapAs : ∀ v typeNames, Within R (Store.wrapAs v typeNames)
  insertTypeName : ∀ (s : Store) o name, R s (s.insertTypeName o name)
  release : ∀ (s : Store) o, R s (s.release o)
  takeAnnounced : Within R Store.takeAnnounced

/-- The host has no other way to the store than anyone else: it stays within every relation that
covers what may be done to a store. -/
def Environment.Orderly (env : Environment) : Prop :=
  ∀ R : Store → Store → Prop, [Store.Permits R] → env.Within R

/-! ## Commands -/

variable [Store.Writes R]

namespace Command

variable {env : Environment}

theorem within_ownerOf (call : Invocation) : Within R (ownerOf call).run := by
  unfold ownerOf
  split
  · exact within_ok _
  · exact within_throw _

theorem within_integer (v : Value) : Within R (integer env v).run := by
  refine within_read.andThen fun s => ?_
  split
  · exact within_ok _
  · exact within_throw _

theorem within_total (vs : List Value) : Within R (total env vs).run := by
  induction vs with
  | nil => exact within_ok _
  | cons v rest ih => exact (within_integer v).andThen fun _ => ih.andThen fun _ => within_ok _

theorem within_memberOf (o : ObjectId) (name : String) : Within R (memberOf env o name).run := by
  refine ((View.ofObject o).within_get? env.adapter name).lift.andThen fun found => ?_
  split
  · exact within_ok _
  · exact within_throw _

/-- What a command does with the member of a name stays within a relation if that does. -/
theorem within_withMember {α : Type} {call : Invocation} {name : String}
    {use : Member → Run Failure α} (h : ∀ m, Within R (use m).run) :
    Within R (do use (← memberOf env (← ownerOf call) name)).run :=
  (within_ownerOf call).andThen fun o => (within_memberOf o name).andThen h

theorem within_run (h : env.Within R) (constantOf : String → Option Value) (call : Invocation)
    (command : Command) : Within R (command.run env constantOf call).run := by
  cases command with
  | null | args | first | count | runs | mode => exact within_ok _
  | fail | flow | invalid | terminate => exact within_throw _
  | constant text =>
    simp only [run]
    split
    · exact within_ok _
    · exact within_throw _
  | sum => exact (within_total call.args).andThen fun _ => within_ok _
  | double => exact (within_integer _).andThen fun _ => within_ok _
  | base | types =>
    exact (within_ownerOf call).andThen fun o => within_read.andThen fun s => within_ok _
  | this =>
    simp only [run]
    split
    · exact within_read.andThen fun s => within_ok _
    · exact within_ok _
  | get name => exact within_withMember fun m => (m.within_value h).mapFailure _
  | set name =>
    exact within_withMember fun m =>
      ((m.within_setValue h _).mapFailure _).andThen fun _ => within_ok _
  | call name => exact within_withMember fun m => (m.within_invoke h _).mapFailure _
  | note name =>
    exact (Grows.addCell _).lift.andThen fun cell =>
      ((Member.within_define name (.note cell)).mapFailure _).andThen fun m =>
        (within_ownerOf call).andThen fun o =>
          (((View.ofObject o).within_add m false).mapFailure _).andThen fun _ => within_ok _
  | remove name =>
    exact (within_ownerOf call).andThen fun o =>
      (((View.ofObject o).within_remove name).mapFailure _).andThen fun _ => within_ok _
  | setBase =>
    exact (within_ownerOf call).andThen fun o =>
      (within_write fun s => related_setBaseValue s o _).andThen fun _ => within_ok _
  | entry key =>
    refine (within_ownerOf call).andThen fun o => within_read.andThen fun s => ?_
    split
    · exact within_throw _
    · split
      · exact within_ok _
      · exact within_throw _
  | nest name =>
    refine (within_integer _).andThen fun n => ?_
    split
    · exact within_ok _
    · exact within_withMember fun m =>
        ((m.within_invoke h _).mapFailure _).andThen fun _ => within_ok _

end Command

/-- Commands do no more than members and views do, to whatever depth they call each other. -/
theorem CommandHost.environment_within (host : CommandHost) (depth : Nat) :
    (host.environment depth).Within R := by
  induction depth with
  | zero => exact fun _ _ => within_throw _
  | succ depth ih =>
    intro text call
    show Within R (Command.evaluate (host.environment depth) host.constantOf text call).run
    unfold Command.evaluate
    split
    · exact Command.within_run ih host.constantOf call _
    · exact within_throw _

def CommandHost.bare : CommandHost := ⟨.bag, [], true, fun _ => none⟩

theorem CommandHost.environment_orderly (host : CommandHost) (depth : Nat) :
    (host.environment depth).Orderly :=
  fun _ => host.environment_within depth

end DynamicMembers
