import DynamicMembers.Capability
import DynamicMembers.Proofs.Access.Termination
import DynamicMembers.Proofs.Alias.Arrivals
import DynamicMembers.Proofs.View.Changes

/-! # What may not be done is not begun

Whether a value can be read or written is asked in one place and acted on in another, and
each place has a case of its own for every kind of member. They agree: where the answer is
no, the access is refused before any code is run (`Access.refused_of_not_allowed`). An
alias asks what it leads to and is handed that member out anew for the access; what is
handed out answers as what was found (`Store.CopiesAnswerAlike.handOut`).

That no code has a part in the refusal is said twice: the access makes no call, and its
outcome is the same whatever getters, setters and scripts may do.
-/
namespace DynamicMembers

/-! ## Questions -/

/-- What does not depend on the cell or the list of a member depends on its form. -/
theorem Member.apply_form {α : Type} (f : Member → α)
    (hnote : ∀ (m : Member) (c : CellId),
      f { m with kind := .note ⟨0⟩ } = f { m with kind := .note c })
    (hcaptured : ∀ (m : Member) (c : CellId),
      f { m with kind := .captured ⟨0⟩ } = f { m with kind := .captured c })
    (hset : ∀ (m : Member) (l : ListId) (inherits : Bool),
      f { m with kind := .memberSet (.list ⟨0⟩) inherits } =
        f { m with kind := .memberSet (.list l) inherits })
    (m : Member) : f { m with kind := m.kind.form } = f m := by
  obtain ⟨id, name, flags, owner, kind⟩ := m
  cases kind with
  | note c => exact hnote ⟨id, name, flags, owner, .note c⟩ c
  | captured c => exact hcaptured ⟨id, name, flags, owner, .captured c⟩ c
  | memberSet content inherits =>
    cases content with
    | list l => exact hset ⟨id, name, flags, owner, .memberSet (.list l) inherits⟩ l inherits
    | reserved view => rfl
  | _ => rfl

namespace Store

variable {adapter : Adapter} {s : Store} {m : Member}

theorem isGettable_of_reference?_eq_none (h : m.reference? = none) :
    s.isGettable adapter m = s.isGettableItself adapter m := by
  unfold isGettable
  split
  next hkind => exact absurd hkind (Member.reference?_eq_none_iff.mp h _ _)
  next => rfl

theorem isSettable_of_reference?_eq_none (h : m.reference? = none) :
    s.isSettable adapter m = s.isSettableItself adapter m := by
  unfold isSettable
  split
  next hkind => exact absurd hkind (Member.reference?_eq_none_iff.mp h _ _)
  next => rfl

/-- A question of members has one answer for a member and its copies, as long as an adapter sees
the same. -/
def CopiesAnswerAlike {α : Type} (question : Store → Member → α) : Prop :=
  ∀ (s t : Store) (owner : Option ObjectId) (m copy : Member), m.IsCopy owner copy →
    (∀ binding : Binding, m.kind.sharedCell? = some binding.base →
      t.adapterState binding = s.adapterState binding) →
    question t copy = question s m

theorem copiesAnswerAlike_isSettableItself (adapter : Adapter) :
    CopiesAnswerAlike (isSettableItself adapter) := by
  intro s t owner m copy hcopy hstate
  have hself (s : Store) := Member.apply_form (s.isSettableItself adapter) (fun _ _ => rfl)
    (fun _ _ => rfl) fun _ _ _ => rfl
  rw [← hself t copy, ← hself s m]
  simp only [isSettableItself, hcopy.form, hcopy.flags]
  cases hkind : m.kind.form with
  | adapted binding =>
    have hshared : (MemberKind.adapted binding).sharedCell? = m.kind.sharedCell? :=
      MemberKind.sharedCell?_of_form hkind.symm
    simp only [hstate binding hshared.symm]
  | parameterized binding =>
    have hshared : (MemberKind.parameterized binding).sharedCell? = m.kind.sharedCell? :=
      MemberKind.sharedCell?_of_form hkind.symm
    simp only [hstate binding hshared.symm]
  | _ => rfl

theorem copiesAnswerAlike_isGettableItself (adapter : Adapter) :
    CopiesAnswerAlike (isGettableItself adapter) := by
  intro s t owner m copy hcopy hstate
  have hself (s : Store) := Member.apply_form (s.isGettableItself adapter) (fun _ _ => rfl)
    (fun _ _ => rfl) fun _ _ _ => rfl
  rw [← hself t copy, ← hself s m]
  simp only [isGettableItself, hcopy.form]
  cases hkind : m.kind.form with
  | adapted binding =>
    have hshared : (MemberKind.adapted binding).sharedCell? = m.kind.sharedCell? :=
      MemberKind.sharedCell?_of_form hkind.symm
    simp only [hstate binding hshared.symm]
  | _ => rfl

theorem adapterState_handOut (v : View) (x : Sighting) (s : Store) {binding : Binding}
    (h : x.member.kind.sharedCell? = some binding.base) :
    (s.after (v.handOut x)).adapterState binding = s.adapterState binding := by
  have hbare : x.member.kind.cell? = none ∧ x.member.kind.list? = none := by
    cases hkind : x.member.kind <;> rw [hkind] at h <;> first | exact ⟨rfl, rfl⟩ | cases h
  obtain ⟨m, t, hrun, hcounts, -, -⟩ := v.run_handOut_of_steady (.inr hbare) s
  rw [after, hrun, hcounts.rest]
  rfl

theorem CopiesAnswerAlike.handOut {α : Type} {question : Store → Member → α}
    (h : CopiesAnswerAlike question) (v : View) (x : Sighting) (s : Store) :
    question (s.after (v.handOut x)) ((v.handOut x).run s).1 = question s x.member :=
  h s _ _ x.member _ (v.isCopy_handOut x s) fun _ hshared => adapterState_handOut v x s hshared

end Store

/-! ## Adapters that list the same -/

section

variable {adapter other : Adapter} (hrows : other.rows = adapter.rows)
include hrows

theorem Source.layer_eq_of_rows : Source.layer other = Source.layer adapter := by
  have hsupplied : Store.suppliedLayer other = Store.suppliedLayer adapter := by
    funext s o
    unfold Store.suppliedLayer Layer.supplied
    rw [hrows]
  funext s o source
  cases source with
  | declarations => rfl
  | adapter => exact congrFun (congrFun hsupplied s) o
  | owner =>
    unfold layer Store.ownerLayer
    rw [hsupplied]

theorem View.find?_eq_of_rows : View.find? other = View.find? adapter := by
  funext s v name
  unfold find? sourceLayers
  rw [Source.layer_eq_of_rows hrows]

theorem View.union_eq_of_rows : View.union other = View.union adapter := by
  funext s v
  unfold union layers sourceLayers
  rw [Source.layer_eq_of_rows hrows]

theorem Store.follow_eq_of_rows (s : Store) (o : ObjectId) (name : String) (steps : Nat)
    (passed : List String) (reference : String) :
    s.follow other o name steps passed reference =
      s.follow adapter o name steps passed reference := by
  induction steps generalizing passed reference with
  | zero => rfl
  | succ steps ih => simp only [follow, View.find?_eq_of_rows hrows, ih]

theorem Store.aliasTarget_eq_of_rows (s : Store) (m : Member) (reference : String) :
    s.aliasTarget other m reference = s.aliasTarget adapter m reference := by
  simp only [aliasTarget, View.union_eq_of_rows hrows, follow_eq_of_rows hrows]

theorem Member.resolve_eq_of_rows (m : Member) (reference : String) :
    m.resolve other reference = m.resolve adapter reference := by
  simp only [resolve, Store.aliasTarget_eq_of_rows hrows]

end

/-- The adapters of both environments list the same rows and say the same of what can be read and
written. All that runs code may be different. -/
structure Environment.AsksAlike (env other : Environment) : Prop where
  rows : other.adapter.rows = env.adapter.rows
  isSettable : other.adapter.isSettable = env.adapter.isSettable
  isGettable : other.adapter.isGettable = env.adapter.isGettable
  isIndexedSettable : other.adapter.isIndexedSettable = env.adapter.isIndexedSettable

namespace Environment.AsksAlike

variable {env other : Environment}

theorem refl (env : Environment) : env.AsksAlike env := ⟨rfl, rfl, rfl, rfl⟩

theorem isSettableItself (h : env.AsksAlike other) (s : Store) (m : Member) :
    s.isSettableItself other.adapter m = s.isSettableItself env.adapter m := by
  have hsettable (tag : AdapterTag) :
      (tag.adapter other.adapter).isSettable = (tag.adapter env.adapter).isSettable := by
    cases tag with
    | model => exact h.isSettable
    | bag => rfl
  have hindexed (tag : AdapterTag) : (tag.adapter other.adapter).isIndexedSettable =
      (tag.adapter env.adapter).isIndexedSettable := by
    cases tag with
    | model => exact h.isIndexedSettable
    | bag => rfl
  simp only [Store.isSettableItself, hsettable, hindexed]

theorem isGettableItself (h : env.AsksAlike other) (s : Store) (m : Member) :
    s.isGettableItself other.adapter m = s.isGettableItself env.adapter m := by
  have hgettable (tag : AdapterTag) :
      (tag.adapter other.adapter).isGettable = (tag.adapter env.adapter).isGettable := by
    cases tag with
    | model => exact h.isGettable
    | bag => rfl
  simp only [Store.isGettableItself, hgettable]

end Environment.AsksAlike

/-! ## Refusals -/

namespace Member

variable {env : Environment} {s : Store} {m : Member}

def readRefusal (m : Member) : MemberError :=
  match m.kind with
  | .code .. => .getValue m.name .noGetter
  | .script .. => .getValue m.name .noGetterScript
  | .adapted _ => .getValue m.name .writeOnly
  | _ => .invalidOperation m.name .unknownValue

def writeRefusal (m : Member) : MemberError :=
  match m.kind with
  | .code .. | .script .. | .adapted _ => .setValue m.name .readOnly
  | .note _ => .setValue m.name .sharedNote
  | .slot target => .setValue m.name (.lockedVariable target.name)
  | _ => .invalidOperation m.name (.notSettable m.type)

/-- Why a member is refused, given why those are that are no aliases. An alias is refused as the
member that it leads to, or because it leads to none. -/
def refusal (adapter : Adapter) (s : Store) (m : Member) (own : Member → MemberError) :
    MemberError :=
  match m.kind with
  | .aliasOf reference _ =>
    match s.aliasTarget adapter m reference with
    | .ok (_, x) => own x.member
    | .error failure => failure
  | _ => own m

theorem copiesAnswerAlike_readRefusal : Store.CopiesAnswerAlike fun _ => readRefusal := by
  intro _ _ owner m copy hcopy _
  have hself := apply_form readRefusal (fun _ _ => rfl) (fun _ _ => rfl) fun _ _ _ => rfl
  show copy.readRefusal = m.readRefusal
  rw [← hself copy, ← hself m]
  simp only [readRefusal, hcopy.name, hcopy.form]

theorem copiesAnswerAlike_writeRefusal : Store.CopiesAnswerAlike fun _ => writeRefusal := by
  intro _ _ owner m copy hcopy _
  have hself := apply_form writeRefusal (fun _ _ => rfl) (fun _ _ => rfl) fun _ _ _ => rfl
  show copy.writeRefusal = m.writeRefusal
  rw [← hself copy, ← hself m]
  simp only [writeRefusal, hcopy.name, hcopy.form, Member.type]

theorem refusal_of_reference?_eq_none {adapter : Adapter} (h : m.reference? = none)
    (own : Member → MemberError) : m.refusal adapter s own = own m := by
  unfold refusal
  split
  next hkind => exact absurd hkind (reference?_eq_none_iff.mp h _ _)
  next => rfl

theorem valueItself_of_not_gettable (h : s.isGettableItself env.adapter m = false) :
    (m.valueItself env).run.run s = (.error m.readRefusal, s) := by
  rw [valueItself, Store.run_read_then]
  unfold Store.isGettableItself at h
  unfold readRefusal
  cases hkind : m.kind with
  | code getter setter =>
    obtain rfl : getter = none := by simpa [hkind] using h
    rfl
  | script getter setter policy =>
    obtain rfl : getter = none := by simpa [hkind] using h
    rfl
  | adapted binding =>
    simp only [hkind] at h
    simp only [h]
    rfl
  | dynamic => rfl
  | _ => simp [hkind] at h

theorem setValueItself_of_not_settable (h : s.isSettableItself env.adapter m = false)
    (v : Value) : (m.setValueItself env v).run.run s = (.error m.writeRefusal, s) := by
  rw [setValueItself, Store.run_read_then]
  unfold Store.isSettableItself at h
  unfold writeRefusal
  cases hkind : m.kind with
  | code getter setter =>
    obtain rfl : setter = none := by simpa [hkind] using h
    rfl
  | script getter setter policy =>
    obtain rfl : setter = none := by simpa [hkind] using h
    rfl
  | note cell =>
    simp only [hkind] at h
    simp only [h]
    rfl
  | slot target =>
    have hlocked : target.isWritable = false := by simpa [hkind] using h
    have hwrite : (Store.writeVariable target v).run s = (false, s) := by
      unfold Store.writeVariable
      rw [hlocked]
      rfl
    simp only [Store.run_lift_then, hwrite]
    rfl
  | captured cell => simp [hkind] at h
  | adapted binding =>
    simp only [hkind] at h
    simp only [h]
    rfl
  | _ => rfl

/-- An alias that leads nowhere changes nothing, and one that leads to a member is handed it. -/
theorem resolve_cases (adapter : Adapter) (s : Store) (m : Member) (reference : String) :
    (∃ failure, s.aliasTarget adapter m reference = .error failure ∧
      (m.resolve adapter reference).run.run s = (.error failure, s)) ∨
    ∃ o x, s.aliasTarget adapter m reference = .ok (o, x) ∧
      (m.resolve adapter reference).run.run s =
        (.ok (((View.ofObject o).handOut x).run s).1, s.after ((View.ofObject o).handOut x)) := by
  cases htarget : s.aliasTarget adapter m reference with
  | error failure =>
    refine .inl ⟨failure, rfl, ?_⟩
    rw [resolve, Store.run_read_then, htarget]
    rfl
  | ok found => exact .inr ⟨found.1, found.2, rfl, run_resolve htarget rfl⟩

theorem answer_of_resolve {adapter : Adapter} {question : Store → Member → Bool} {t : Store}
    {target : Member} {reference : String} (hquestion : Store.CopiesAnswerAlike question)
    (h : (m.resolve adapter reference).run.run s = (.ok target, t)) :
    ∃ o x, s.aliasTarget adapter m reference = .ok (o, x) ∧
      question t target = question s x.member := by
  rcases m.resolve_cases adapter s reference with ⟨failure, -, hrun⟩ | ⟨o, x, hx, hrun⟩
  · cases h.symm.trans hrun
  · obtain ⟨htarget, rfl⟩ := Prod.mk.inj (h.symm.trans hrun)
    obtain rfl := Except.ok.inj htarget
    exact ⟨o, x, hx, hquestion.handOut (View.ofObject o) x s⟩

/-- Where the target of an alias is refused without a change, so is the alias. The copy that it may
be handed is all that is new. -/
theorem fails_of_alias {α : Type} {question : Store → Member → Bool} {reference : String}
    {conversion : Option ValueType} {act : Environment → Member → Run MemberError α}
    {own : Member → MemberError} (hkind : m.kind = .aliasOf reference conversion)
    (hquestion : Store.CopiesAnswerAlike question)
    (hown : Store.CopiesAnswerAlike fun _ => own)
    (hact : ∀ other t target, env.AsksAlike other → question t target = false →
      (act other target).run.run t = (.error (own target), t))
    (htarget : ∀ o x, s.aliasTarget env.adapter m reference = .ok (o, x) →
      question s x.member = false) :
    ∃ t, s.Enlarges t ∧ ∀ other, env.AsksAlike other →
      (m.resolve other.adapter reference >>= act other).run.run s =
        (.error (m.refusal env.adapter s own), t) := by
  simp only [refusal, hkind]
  rcases m.resolve_cases env.adapter s reference with ⟨failure, hx, hrun⟩ | ⟨o, x, hx, hrun⟩
  · refine ⟨s, Store.Coherent.refl s, fun other hother => ?_⟩
    rw [resolve_eq_of_rows hother.rows, hx]
    exact Store.run_then_of_error hrun
  · have hclosed := (hquestion.handOut (View.ofObject o) x s).trans (htarget o x hx)
    refine ⟨_, View.enlarges_handOut (View.ofObject o) x s, fun other hother => ?_⟩
    rw [resolve_eq_of_rows hother.rows, Store.run_then_of_ok hrun, hx,
      hact other _ _ hother hclosed, hown.handOut (View.ofObject o) x s]

end Member

namespace Access

variable {env : Environment} {s t : Store} {access : Access} {call : Call}

/-- Do the answers of the member allow the access? Whether a member can be called is not asked. -/
def isAllowed (adapter : Adapter) (s : Store) : Access → Bool
  | value m => s.isGettable adapter m
  | setValue m _ => s.isSettable adapter m
  | invoke _ _ => true

def refusal (adapter : Adapter) (s : Store) : Access → MemberError
  | value m => m.refusal adapter s Member.readRefusal
  | setValue m _ => m.refusal adapter s Member.writeRefusal
  | invoke m _ => .invalidOperation m.name (.notInvocable m.type)

/-- The access fails before any code is run. -/
structure Refused (env : Environment) (s : Store) (access : Access) : Prop where
  /-- No getter, setter or script of a member is run, and no native callable. -/
  idle : ∀ call t, ¬ access.Makes env s call t
  /-- All that was there is as it was, and it does not matter what code would have done. -/
  fails : ∃ t, (access.run env).run.run s = (.error (access.refusal env.adapter s), t) ∧
    s.Enlarges t ∧ ∀ other, env.AsksAlike other →
      (access.run other).run.run s = (.error (access.refusal env.adapter s), t)

theorem Makes.isAllowed (h : access.Makes env s call t) :
    access.isAllowed env.adapter s = true := by
  cases h with
  | direct h =>
    cases h with
    | getCode hkind | getScript hkind =>
      simp [Access.isAllowed, Store.isGettable, Store.isGettableItself, hkind]
    | setCode hkind | setScript hkind =>
      simp [Access.isAllowed, Store.isSettable, Store.isSettableItself, hkind]
    | invokeCode | invokeScript => rfl
  | getAlias hkind hresolve h =>
    obtain ⟨o, x, htarget, hanswer⟩ := Member.answer_of_resolve
      (Store.copiesAnswerAlike_isGettableItself env.adapter) hresolve
    simp only [Access.isAllowed, Store.isGettable, hkind, htarget, ← hanswer]
    cases h with
    | getCode hkind | getScript hkind => simp [Store.isGettableItself, hkind]
  | setAlias hkind hresolve h =>
    obtain ⟨o, x, htarget, hanswer⟩ := Member.answer_of_resolve
      (Store.copiesAnswerAlike_isSettableItself env.adapter) hresolve
    simp only [Access.isAllowed, Store.isSettable, hkind, htarget, ← hanswer]
    cases h with
    | setCode hkind | setScript hkind => simp [Store.isSettableItself, hkind]

/-- A member that can not be read fails the same way in all environments that ask alike. -/
theorem fails_of_not_gettable {m : Member} (h : s.isGettable env.adapter m = false) :
    ∃ t, s.Enlarges t ∧ ∀ other, env.AsksAlike other →
      (m.value other).run.run s =
        (.error (m.refusal env.adapter s Member.readRefusal), t) := by
  cases hreference : m.reference? with
  | none =>
    rw [Store.isGettable_of_reference?_eq_none hreference] at h
    refine ⟨s, Store.Coherent.refl s, fun other hother => ?_⟩
    rw [Member.value_of_reference?_eq_none hreference,
      Member.refusal_of_reference?_eq_none hreference]
    exact Member.valueItself_of_not_gettable ((hother.isGettableItself s m).trans h)
  | some reference =>
    obtain ⟨conversion, hkind⟩ := Member.reference?_eq_some_iff.mp hreference
    simp only [Store.isGettable, hkind] at h
    unfold Member.value
    simp only [hkind]
    refine Member.fails_of_alias hkind (Store.copiesAnswerAlike_isGettableItself env.adapter)
      Member.copiesAnswerAlike_readRefusal
      (fun other t target hother hclosed => Store.run_then_of_error
        (Member.valueItself_of_not_gettable ((hother.isGettableItself t target).trans hclosed)))
      fun o x hx => ?_
    simpa only [hx] using h

theorem fails_of_not_settable {m : Member} (h : s.isSettable env.adapter m = false) (v : Value) :
    ∃ t, s.Enlarges t ∧ ∀ other, env.AsksAlike other →
      (m.setValue other v).run.run s =
        (.error (m.refusal env.adapter s Member.writeRefusal), t) := by
  cases hreference : m.reference? with
  | none =>
    rw [Store.isSettable_of_reference?_eq_none hreference] at h
    refine ⟨s, Store.Coherent.refl s, fun other hother => ?_⟩
    rw [Member.setValue_of_reference?_eq_none hreference,
      Member.refusal_of_reference?_eq_none hreference]
    exact Member.setValueItself_of_not_settable ((hother.isSettableItself s m).trans h) v
  | some reference =>
    obtain ⟨conversion, hkind⟩ := Member.reference?_eq_some_iff.mp hreference
    simp only [Store.isSettable, hkind] at h
    unfold Member.setValue
    simp only [hkind]
    refine Member.fails_of_alias hkind (Store.copiesAnswerAlike_isSettableItself env.adapter)
      Member.copiesAnswerAlike_writeRefusal
      (fun other t target hother hclosed =>
        Member.setValueItself_of_not_settable ((hother.isSettableItself t target).trans hclosed) v)
      fun o x hx => ?_
    simpa only [hx] using h

/-- What the answers of a member do not allow is refused. -/
theorem refused_of_not_allowed (h : access.isAllowed env.adapter s = false) :
    access.Refused env s := by
  refine ⟨fun call t hmakes => ?_, ?_⟩
  · rw [hmakes.isAllowed] at h
    cases h
  · obtain ⟨t, ht, hfails⟩ : ∃ t, s.Enlarges t ∧ ∀ other, env.AsksAlike other →
        (access.run other).run.run s = (.error (access.refusal env.adapter s), t) := by
      cases access with
      | value m => exact fails_of_not_gettable h
      | setValue m v =>
        obtain ⟨t, ht, hfails⟩ := fails_of_not_settable h v
        exact ⟨t, ht, fun other hother => Store.run_then_of_error (hfails other hother)⟩
      | invoke m args => cases h
    exact ⟨t, hfails env (.refl env), ht, hfails⟩

def loop : Member := ⟨.made 4, "Sum", .initial, some ⟨0⟩, .aliasOf "Total" none⟩

/-- The stale alias leads over two others to a property set, which can not be written: the refusal
names what it leads to. The alias in the cycle can not be read. -/
theorem refused_chained :
    ((setValue Member.staleAlias .null).isAllowed .bag Member.chained = false ∧
      (setValue Member.staleAlias .null).refusal .bag Member.chained =
        .invalidOperation "Count" (.notSettable .propertySet) ∧
      (setValue Member.staleAlias .null).Refused (CommandHost.bare.environment 1)
        Member.chained) ∧
    (value loop).isAllowed .bag Member.chained = false ∧
      (value loop).refusal .bag Member.chained = .aliasCycle "Sum" ["Sum", "Total", "sum"] ∧
      (value loop).Refused (CommandHost.bare.environment 1) Member.chained := by
  have hset : (setValue Member.staleAlias .null).isAllowed .bag Member.chained = false := by
    decide +kernel
  have hvalue : (value loop).isAllowed .bag Member.chained = false := by
    decide +kernel
  exact ⟨⟨hset, rfl, refused_of_not_allowed hset⟩, hvalue, rfl, refused_of_not_allowed hvalue⟩

end Access

end DynamicMembers
