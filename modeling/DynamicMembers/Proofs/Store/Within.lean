import DynamicMembers.Store.Copy

/-! # Operations within a relation

What an operation may do to the store is said by a relation between the store before
and the store after. If the relation holds of every store and itself and can be put
together, then operations within it can be sequenced, also where a failure ends them
half-way. So it is shown of an operation from the operations that it calls, once for
all such relations.
-/
namespace DynamicMembers

namespace Store

variable {α β ε δ : Type} {R : Store → Store → Prop}

/-- The store that an operation leaves. -/
def after {α : Type} (s : Store) (x : StateM Store α) : Store := (x.run s).2

/-- A relation between a store and what becomes of it by and by. -/
class Coherent (R : Store → Store → Prop) : Prop where
  refl : ∀ s, R s s
  trans : ∀ {s t u}, R s t → R t u → R s u

def Within (R : Store → Store → Prop) (x : StateM Store α) : Prop := ∀ s, R s (s.after x)

theorem within_modify {f : Store → Store} (h : ∀ s, R s (f s)) :
    Within R (modify f : StateM Store PUnit) := h

theorem within_write {f : Store → Store} (h : ∀ s, R s (f s)) :
    Within R (modify f : Run ε PUnit).run := h

theorem within_read_then {f : Store → Run ε β} (h : ∀ s : Store, R s (s.after (f s).run)) :
    Within R (get >>= f).run := h

theorem after_read_then {s : Store} (f : Store → Run ε β) :
    s.after (get >>= f).run = s.after (f s).run := rfl

theorem run_read_then (f : Store → Run ε β) (s : Store) :
    (get >>= f).run.run s = (f s).run.run s := rfl

theorem run_write_then (write : Store → Store) (f : PUnit → Run ε β) (s : Store) :
    (modify write >>= f).run.run s = (f ⟨⟩).run.run (write s) := rfl

theorem run_lift_then (x : StateM Store α) (f : α → Run ε β) (s : Store) :
    ((liftM x : Run ε α) >>= f).run.run s = (f (x.run s).1).run.run (x.run s).2 := rfl

theorem run_then_of_ok {x : Run ε α} {f : α → Run ε β} {s t : Store} {a : α}
    (h : x.run.run s = (.ok a, t)) : (x >>= f).run.run s = (f a).run.run t := by
  rw [ExceptT.run_bind, StateT.run_bind, h]
  rfl

theorem run_then_of_error {x : Run ε α} {f : α → Run ε β} {s t : Store} {failure : ε}
    (h : x.run.run s = (.error failure, t)) : (x >>= f).run.run s = (.error failure, t) := by
  rw [ExceptT.run_bind, StateT.run_bind, h]
  rfl

theorem ok_of_then_ok {x : Run ε α} {f : α → Run ε β} {s u : Store} {b : β}
    (h : (x >>= f).run.run s = (.ok b, u)) :
    ∃ a t, x.run.run s = (.ok a, t) ∧ (f a).run.run t = (.ok b, u) := by
  obtain ⟨outcome, t, hx⟩ : ∃ outcome t, x.run.run s = (outcome, t) := ⟨_, _, rfl⟩
  cases outcome with
  | ok a => exact ⟨a, t, hx, (run_then_of_ok hx).symm.trans h⟩
  | error failure => cases (run_then_of_error hx).symm.trans h

theorem failed_of_then_failed {x : Run ε α} {f : α → Run ε β} {s u : Store} {failure : ε}
    (h : (x >>= f).run.run s = (.error failure, u)) :
    x.run.run s = (.error failure, u) ∨
      ∃ a t, x.run.run s = (.ok a, t) ∧ (f a).run.run t = (.error failure, u) := by
  obtain ⟨outcome, t, hx⟩ : ∃ outcome t, x.run.run s = (outcome, t) := ⟨_, _, rfl⟩
  cases outcome with
  | ok a => exact .inr ⟨a, t, hx, (run_then_of_ok hx).symm.trans h⟩
  | error earlier =>
    cases (run_then_of_error (f := f) hx).symm.trans h
    exact .inl hx

theorem run_mapFailure (f : ε → δ) (x : Run ε α) (s : Store) :
    (x.mapFailure f).run.run s = ((x.run.run s).1.mapError f, (x.run.run s).2) := rfl

theorem ok_of_mapFailure_ok {f : ε → δ} {x : Run ε α} {s t : Store} {a : α}
    (h : (x.mapFailure f).run.run s = (.ok a, t)) : x.run.run s = (.ok a, t) := by
  obtain ⟨outcome, u, hx⟩ : ∃ outcome t, x.run.run s = (outcome, t) := ⟨_, _, rfl⟩
  rw [run_mapFailure, hx] at h
  cases outcome with
  | ok b =>
    cases h
    exact hx
  | error failure => cases h

theorem failed_of_mapFailure_failed {f : ε → δ} {x : Run ε α} {s t : Store} {failure : δ}
    (h : (x.mapFailure f).run.run s = (.error failure, t)) :
    ∃ cause, failure = f cause ∧ x.run.run s = (.error cause, t) := by
  obtain ⟨outcome, u, hx⟩ : ∃ outcome t, x.run.run s = (outcome, t) := ⟨_, _, rfl⟩
  rw [run_mapFailure, hx] at h
  cases outcome with
  | ok b => cases h
  | error cause =>
    cases h
    exact ⟨cause, rfl, hx⟩

/-- What is computed first may fail; what it is used for then does not. -/
theorem outcome_lift_then (first : Except ε α) (x : α → StateM Store β) (s : Store) :
    ((liftM first >>= fun a => (liftM (x a) : Run ε β)).run.run s).1 =
      first.map fun a => ((x a).run s).1 := by
  cases first <;> rfl

theorem Within.map {x : StateM Store α} (f : α → β) (hx : Within R x) : Within R (f <$> x) := hx

theorem Within.lift {x : StateM Store α} (hx : Within R x) : Within R (liftM x : Run ε α).run := hx

theorem Within.mapFailure {x : Run ε α} (f : ε → δ) (hx : Within R x.run) :
    Within R (x.mapFailure f).run := hx

variable [Coherent R]

theorem within_pure (a : α) : Within R (pure a : StateM Store α) := Coherent.refl

theorem within_get : Within R (get : StateM Store Store) := Coherent.refl

theorem within_ok (a : α) : Within R (pure a : Run ε α).run := Coherent.refl

theorem within_throw (failure : ε) : Within R (throw failure : Run ε α).run := Coherent.refl

theorem within_read : Within R (get : Run ε Store).run := Coherent.refl

theorem Within.bind {x : StateM Store α} {f : α → StateM Store β} (hx : Within R x)
    (hf : ∀ a, Within R (f a)) : Within R (x >>= f) :=
  fun s => Coherent.trans (hx s) (hf (x.run s).1 (s.after x))

theorem Within.mapM {f : α → StateM Store β} (hf : ∀ a, Within R (f a)) (as : List α) :
    Within R (as.mapM f) := by
  induction as with
  | nil => exact within_pure _
  | cons a as ih =>
    rw [List.mapM_cons]
    exact (hf a).bind fun _ => ih.bind fun _ => within_pure _

/-- A failure of the first operation ends both. -/
theorem Within.andThen {x : Run ε α} {f : α → Run ε β} (hx : Within R x.run)
    (hf : ∀ a, Within R (f a).run) : Within R (x >>= f).run := by
  rw [ExceptT.run_bind]
  refine hx.bind fun outcome => ?_
  cases outcome with
  | ok a => exact hf a
  | error failure => exact within_pure _

/-! ## Operations that write once or not at all -/

theorem within_addToList (h : ∀ (s : Store) l members, R s (s.setList l members)) (l : ListId)
    (m : Member) (vouched : Bool) : Within R (addToList l m vouched).run := by
  refine within_read.andThen fun s => ?_
  split
  · exact within_throw _
  · exact (within_write fun s => h s l _).andThen fun _ => within_ok _

theorem within_removeFromList (h : ∀ (s : Store) l members, R s (s.setList l members)) (l : ListId)
    (name : String) : Within R (removeFromList l name).run := by
  refine within_read.andThen fun s => ?_
  split
  · exact within_throw _
  · exact (within_write fun s => h s l _).andThen fun _ => within_ok _

theorem within_declare (h : ∀ (s : Store) types, R s { s with types := types }) (typeName : String)
    (m : Member) : Within R (declare typeName m).run := by
  refine within_read.andThen fun s => ?_
  split
  · exact within_throw _
  · exact within_write fun s => h s _

theorem related_insertTypeName (h : ∀ (s : Store) o state, R s (s.setObject o state)) (s : Store)
    (o : ObjectId) (name : String) : R s (s.insertTypeName o name) := by
  unfold insertTypeName
  split
  · exact Coherent.refl s
  · split
    · exact Coherent.refl s
    · exact h s o _

theorem related_release (h : ∀ (s : Store) o state, R s (s.setObject o state)) (s : Store)
    (o : ObjectId) : R s (s.release o) := by
  unfold release
  split
  · exact Coherent.refl s
  · exact h s o _

end Store

end DynamicMembers
