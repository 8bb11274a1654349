import DynamicMembers.Access
import DynamicMembers.Member.Definition
import DynamicMembers.View.Change
import DynamicMembers.Proofs.Store.Reachable

/-! # What operations on members and views do to the store

Everything that can be done with members, views and scripts is done by a few writes of
the store. So it stays within every relation that covers these writes (`Store.Writes`).
Callables and scripts are given from outside; what is asked of them is that they stay
within the relation as well (`Environment.Within`). One such relation is `Steps`: all
that members, views and scripts do is a sequence of steps.
-/
namespace DynamicMembers
open Store

def Environment.Within (R : Store → Store → Prop) (env : Environment) : Prop :=
  ∀ text call, Store.Within R (env.evaluate text call).run

/-- The host does nothing to the store that could not be done by steps. -/
def Environment.Confined (env : Environment) : Prop :=
  ∀ text call, Stepwise (env.evaluate text call).run

/-- A relation that covers what the making of members adds to the store. -/
class Store.Grows (R : Store → Store → Prop) : Prop extends Coherent R where
  addCell : ∀ v, Within R (Store.addCell v)
  addScript : ∀ (s : Store) script, R s { s with scripts := s.scripts.push script }
  addList : ∀ {members l}, MemberList.ofMembers members = .ok l → Within R (Store.addList l)
  nextMemberId : Within R Store.nextMemberId

/-- A relation that covers what members, views and scripts do to the store. What a run of a
script does is left to the relation, since the blocks of the script are written before and
after the host is asked. -/
class Store.Writes (R : Store → Store → Prop) : Prop extends Grows R where
  setCell : ∀ s c v, R s (s.setCell c v)
  setShelf : ∀ (s : Store) shelf, R s { s with shelf := shelf }
  addToList : ∀ l m vouched, Within R (Store.addToList l m vouched).run
  removeFromList : ∀ l name, Within R (Store.removeFromList l name).run
  copyFor : ∀ owner m, Within R (Store.copyFor owner m)
  announce : ∀ (s : Store) typeNames name, R s (s.announce typeNames name)
  run : ∀ (env : Environment) (i : ScriptId) owner args policy, env.Within R →
    Within R (i.run env owner args policy).run

/-! ## Single steps -/

namespace Store

variable {s : Store}

theorem stepwise_addCell (v : Value) : Stepwise (addCell v) :=
  stepwise_of_step fun _ => .addCell v

theorem stepwise_copyFor (owner : Option ObjectId) (m : Member) : Stepwise (copyFor owner m) :=
  stepwise_of_step fun _ => .copyFor owner m

theorem stepwise_declare (typeName : String) (m : Member) : Stepwise (declare typeName m).run :=
  stepwise_of_step fun _ => .declare typeName m

theorem stepwise_wrap (v : Value) : Stepwise (wrap v) :=
  stepwise_of_step fun s => .wrapAs v (s.valueTypeNames v)

end Store

/-! ## Runs of scripts -/

namespace ScriptId

variable {R : Store → Store → Prop} {env : Environment}

theorem within_prepare [Coherent R] (i : ScriptId) : Within R (i.prepare env).run := by
  refine within_read.andThen fun s => ?_
  dsimp only
  split
  · exact within_ok _
  · split
    · exact within_throw _
    · exact within_ok _

theorem within_runBlock [Coherent R] (hmode : ∀ (s : Store) mode,
      R s { s with modes := s.modes.push mode })
    (h : env.Within R) (block : Block) (owner : Option ObjectId) (args : List Value)
    (mode : ErrorMode) : Within R (runBlock env block owner args mode) :=
  (within_modify fun s => hmode s mode).bind fun _ => (h _ _).bind fun _ => within_pure _

theorem stepwise_run (h : env.Confined) (i : ScriptId) (owner : Option ObjectId)
    (args : List Value) (policy : RunPolicy) :
    Stepwise (i.run env owner args policy).run := by
  have hset (f : Store → Script) (s : Store) : Steps s (s.setScript i (f s)) :=
    .single (.setScript i _)
  refine (within_prepare i).andThen fun prepared => ?_
  obtain ⟨template, blocks⟩ := prepared
  dsimp only
  generalize blocks.checkOut template policy.onCopy = checkedOut
  obtain ⟨block, isShared, remaining⟩ := checkedOut
  dsimp only
  refine (within_write (hset _)).andThen fun _ => ?_
  refine (within_runBlock (fun _ _ => .single (.logMode _)) h block owner args
    policy.mode).lift.andThen fun ran => ?_
  split
  · exact (within_write (hset _)).andThen fun _ => within_pure _
  · exact within_pure _

end ScriptId

instance : Store.Writes Steps where
  addCell := stepwise_addCell
  addScript _ script := .single (.addScript script)
  addList h := stepwise_of_step fun _ => .addList h
  nextMemberId := stepwise_of_step fun _ => .nextMemberId
  setCell _ c v := .single (.setCell c v)
  setShelf _ shelf := .single (.setShelf shelf)
  addToList l m vouched := stepwise_of_step fun _ => .addToList l m vouched
  removeFromList l name := stepwise_of_step fun _ => .removeFromList l name
  copyFor := stepwise_copyFor
  announce _ typeNames name := .single (.announce typeNames name)
  run _ i owner args policy h := ScriptId.stepwise_run h i owner args policy

variable {R : Store → Store → Prop}

theorem Member.within_define [Store.Grows R] (name : String) (kind : MemberKind) :
    Within R (define name kind).run := by
  unfold define
  split
  · exact within_throw _
  · exact Grows.nextMemberId.lift.andThen fun _ => within_ok _

variable [Store.Writes R]

/-! ## Writes in the store -/

namespace Store

theorem within_writeVariable (target : Variable) (v : Value) :
    Within R (writeVariable target v) := by
  unfold writeVariable
  split
  · exact (within_modify fun s => Writes.setCell s _ _).bind fun _ => within_pure _
  · exact within_pure _

theorem related_setBaseValue (s : Store) (o : ObjectId) (v : Value) : R s (s.setBaseValue o v) := by
  unfold setBaseValue
  split
  · exact Coherent.refl s
  · exact Writes.setCell s _ v

theorem related_setAdapterState (s : Store) (binding : Binding) (state : AdapterState) :
    R s (s.setAdapterState binding state) :=
  Coherent.trans (Writes.setCell s binding.base state.base) (Writes.setShelf _ state.shelf)

end Store

/-! ## Views -/

namespace View

variable (adapter : Adapter) (v : View)

theorem within_handOut (x : Sighting) : Within R (v.handOut x) := by
  unfold handOut
  split
  · exact Grows.nextMemberId.bind fun _ => within_pure _
  · exact within_pure _
  · exact within_pure _
  · exact Writes.copyFor _ _
  · exact Writes.copyFor _ _

theorem within_handOut? (found : Option Sighting) : Within R (v.handOut? found) := by
  cases found with
  | none => exact within_pure _
  | some x => exact (v.within_handOut x).map some

theorem within_get? (name : String) : Within R (v.get? adapter name) :=
  within_get.bind fun _ => v.within_handOut? _

theorem within_announce (name : String) : Within R (v.announce name) := by
  unfold announce
  split
  · split
    · exact within_modify fun s => Writes.announce s _ _
    · exact within_pure _
  · exact within_pure _

theorem within_add (m : Member) (vouched : Bool) : Within R (v.add m vouched).run := by
  refine within_read.andThen fun s => ?_
  split
  · exact within_throw _
  · exact within_throw _
  · exact (Writes.copyFor _ m).lift.andThen fun copy =>
      (Writes.addToList _ copy true).andThen fun _ =>
        (v.within_announce copy.name).lift.andThen fun _ => within_ok _

theorem within_remove (name : String) : Within R (v.remove name).run := by
  refine within_read.andThen fun s => ?_
  split
  · exact within_throw _
  · exact within_ok _
  · exact Writes.removeFromList _ name

theorem stepwise_get? (name : String) : Stepwise (v.get? adapter name) := v.within_get? adapter name

theorem stepwise_add (m : Member) (vouched : Bool) : Stepwise (v.add m vouched).run :=
  v.within_add m vouched

end View

/-! ## Members -/

namespace Member

variable {env : Environment}

theorem stepwise_define (name : String) (kind : MemberKind) : Stepwise (define name kind).run :=
  within_define name kind

theorem within_resolve (adapter : Adapter) (m : Member) (reference : String) :
    Within R (m.resolve adapter reference).run := by
  refine within_read.andThen fun s => ?_
  refine Within.andThen ?_ fun _ => (View.within_handOut _ _).lift
  cases s.aliasTarget adapter m reference with
  | ok _ => exact within_ok _
  | error _ => exact within_throw _

theorem within_convertFor (m : Member) (type : ValueType) (v : Value) :
    Within R (convertFor env m type v).run := by
  refine within_read.andThen fun s => ?_
  split
  · exact within_ok _
  · exact within_throw _

theorem within_call (h : env.Within R) (code : CodeReference) (owner : ObjectId)
    (args : List Value) : Within R (code.call env owner args).run := by
  unfold CodeReference.call
  split
  · exact within_read.andThen fun _ => within_ok _
  · exact h _ _

theorem within_askAdapter (binding : Binding) (wrap : Failure → MemberError)
    (request : Store → AdapterState → Except Failure AdapterState) :
    Within R (askAdapter binding wrap request).run := by
  refine within_read_then fun s => ?_
  split
  · exact related_setAdapterState s _ _
  · exact Coherent.refl s

theorem within_valueItself (h : env.Within R) (m : Member) : Within R (m.valueItself env).run := by
  refine within_read.andThen fun s => ?_
  split
  case h_1 => exact within_throw _
  case h_2 getter _ _ =>
    split
    · exact within_throw _
    · refine ((within_call h getter _ []).mapFailure _).andThen fun v => ?_
      split
      · exact within_convertFor m _ v
      · exact within_ok _
  case h_3 | h_4 | h_5 => exact within_ok _
  case h_6 => exact within_throw _
  case h_7 => exact (Writes.run env _ _ _ _ h).mapFailure _
  case h_8 =>
    dsimp only
    split
    · exact within_throw _
    · split
      · exact within_ok _
      · exact within_throw _
  case h_9 => exact within_ok _
  case h_10 => exact within_throw _
  case h_11 => exact within_ok _

theorem within_value (h : env.Within R) (m : Member) : Within R (m.value env).run := by
  unfold value
  split
  · refine (within_resolve _ m _).andThen fun target => ?_
    refine (within_valueItself h target).andThen fun v => ?_
    split
    · exact within_convertFor m _ v
    · exact within_ok _
  · exact within_valueItself h m

theorem within_setValueItself (h : env.Within R) (m : Member) (v : Value) :
    Within R (m.setValueItself env v).run := by
  refine within_read_then fun s => ?_
  split
  case h_1 => exact within_throw _ s
  case h_2 setter _ =>
    split
    · exact within_throw _ s
    · dsimp only
      split
      · exact (within_convertFor m _ v).andThen (fun accepted =>
          ((within_call h setter _ [accepted]).mapFailure _).andThen fun _ => within_ok _) s
      · exact ((within_call h setter _ [v]).mapFailure _).andThen (fun _ => within_ok _) s
  case h_3 =>
    split
    · exact Writes.setCell s _ v
    · exact Coherent.refl s
  case h_4 => exact Writes.setCell s _ v
  case h_5 target _ =>
    refine Within.andThen (within_writeVariable target v).lift (fun wrote => ?_) s
    split
    · exact within_ok _
    · exact within_throw _
  case h_6 => exact within_throw _ s
  case h_7 setter policy _ =>
    exact ((Writes.run env setter _ [v] policy h).mapFailure _).andThen (fun _ => within_ok _) s
  case h_8 binding _ =>
    dsimp only
    split
    · exact within_throw _ s
    · exact within_askAdapter binding _ _ s
  case h_9 => exact within_throw _ s

theorem within_setValue (h : env.Within R) (m : Member) (v : Value) :
    Within R (m.setValue env v).run := by
  unfold setValue
  split
  · exact (within_resolve _ m _).andThen fun target => within_setValueItself h target v
  · exact within_setValueItself h m v

theorem within_invokeCode (h : env.Within R) (m : Member) (code : CodeReference)
    (args : List Value) : Within R (m.invokeCode env code args).run := by
  refine within_read.andThen fun s => ?_
  split
  · exact within_throw _
  · dsimp only
    split
    · exact within_throw _
    · split
      · exact within_throw _
      · refine ((within_call h code _ _).mapFailure _).andThen fun v => ?_
        split
        · exact within_convertFor m _ v
        · exact within_ok _

theorem within_invokeWith (h : env.Within R) (m : Member) (hints : InvocationHints)
    (args : List Value) : Within R (m.invokeWith env hints args).run := by
  refine within_read.andThen fun s => ?_
  dsimp only
  split
  case h_2 => exact within_invokeCode h m _ args
  case h_3 => exact (Writes.run env _ _ _ _ h).mapFailure _
  case h_5 => exact within_throw _
  all_goals
    split
    · exact within_ok _
    · exact within_throw _

theorem within_invoke (h : env.Within R) (m : Member) (args : List Value) :
    Within R (m.invoke env args).run :=
  within_invokeWith h m .none args

end Member

end DynamicMembers
