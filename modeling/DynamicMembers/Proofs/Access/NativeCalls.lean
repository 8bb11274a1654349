import DynamicMembers.Proofs.Access.AdvertisedTypes
import DynamicMembers.Proofs.Value.References

/-! # What native callables see

A native callable is written for arguments of the types that it declares. Members are defined
by one check, called by another, and what comes back goes through a third: the definition is
looked at once, when the member is made; the arguments are counted and converted at each
access; and the value that is returned is converted as well. Together they keep the promise
(`Access.callsAsDeclared`): the callable is called once, with what was given converted one by
one, if all of that can be done, and not at all if any of it can not.

A conversion may never come to an end, because it has to write a value that has no text. Then
the access has no answer (`Access.run?`). To make arguments what they are converted to is one
thing, and to have the texts that are written meanwhile is another
(`CodeReference.passes_iff_convertArgs`); the first is shown of what accesses do, and the second
of whether they answer.

That there is no further call is said twice: the access comes to no other call, and its
outcome is made of that of the one call by `Access.settled?`, which knows of no host.
-/
namespace DynamicMembers
open Store

/-! ## Values and parameters -/

namespace ParamType

def Admits : ParamType → Value → Prop
  | value type, v => type = .any ∨ v.type = type
  | owner, _ => False

def Converts (write : Value → Option String) : ParamType → Value → Prop
  | value type, v => ∃ converted, v.convertTo? write type = some (.ok converted)
  | owner, _ => False

theorem admits_of_convertTo {write : Value → String} {type : ValueType} {v converted : Value}
    (h : v.convertTo write type = .ok converted) : (value type).Admits converted := by
  by_cases hany : type = .any
  · exact .inl hany
  · exact .inr (Value.type_of_convertTo h hany)

end ParamType

namespace CodeReference

/-- The given values are passed as the received ones: there is one for each parameter, and each is
converted to the type that its parameter declares. -/
inductive Passes (write : Value → Option String) : List ParamType → List Value → List Value → Prop
  | nil : Passes write [] [] []
  | cons {type : ValueType} {params : List ParamType} {v converted : Value}
      {given received : List Value} (h : v.convertTo? write type = some (.ok converted))
      (hrest : Passes write params given received) :
      Passes write (.value type :: params) (v :: given) (converted :: received)

section

variable {write : Value → Option String} {params : List ParamType} {given received : List Value}

theorem Passes.admits (h : Passes write params given received) :
    List.Forall₂ ParamType.Admits params received := by
  induction h with
  | nil => exact .nil
  | cons h _ ih =>
    exact .cons (ParamType.admits_of_convertTo (Value.convertTo?_eq_some_iff.mp h).2) ih

/-- The first argument is written if it has to be, and if it is converted, so are the others that
have to be. -/
theorem mem_writtenArgs_cons {text : Value → String} {type : ValueType} {v converted shown : Value}
    (h : v.convertTo text type = .ok converted) :
    shown ∈ writtenArgs (.value type :: params) (v :: given) ↔
      (v.isWrittenFor type = true ∧ shown = v) ∨ shown ∈ writtenArgs params given := by
  rw [writtenArgs]
  cases hwritten : v.isWrittenFor type with
  | false => simp
  | true =>
    have hstring : type = .string := by
      rw [Value.convertTo_of_written hwritten] at h
      by_contra hother
      rw [if_neg hother] at h
      cases h
    simp [hstring]

theorem all_writtenArgs_singleton (write : Value → Option String) (type : ValueType) (v : Value) :
    ((writtenArgs [.value type] [v]).all fun v => (write v).isSome) =
      (v.convertTo? write type).isSome := by
  rw [writtenArgs, Value.convertTo?]
  cases v.isWrittenFor type <;> cases htext : write v <;> simp [writtenArgs, htext]

/-- Where only the first parameter is for the owner, the arguments that are as many as the others
are passed exactly as they are converted, if all that is written of them has a text. -/
theorem passes_iff_convertArgs (hvalues : .owner ∉ params) :
    Passes write params given received ↔ given.length = params.length ∧
      convertArgs (fun v => (write v).getD "") params given = .ok received ∧
      ∀ v ∈ writtenArgs params given, (write v).isSome = true := by
  induction params generalizing given received with
  | nil =>
    constructor
    · rintro ⟨⟩
      exact ⟨rfl, rfl, by simp [writtenArgs]⟩
    · rintro ⟨hcount, hargs, -⟩
      obtain rfl := List.length_eq_zero_iff.mp hcount
      cases hargs
      exact .nil
  | cons param params ih =>
    obtain ⟨hfirst, hothers⟩ := not_or.mp (mt List.mem_cons.mpr hvalues)
    cases param with
    | owner => exact absurd rfl hfirst
    | value type =>
      cases given with
      | nil => exact ⟨fun h => (by cases h), fun h => (by cases h.1)⟩
      | cons v given =>
        constructor
        · intro h
          cases h with
          | cons h hrest =>
            obtain ⟨hshown, hconvert⟩ := Value.convertTo?_eq_some_iff.mp h
            obtain ⟨hcount, hargs, hwritten⟩ := (ih hothers).mp hrest
            refine ⟨congrArg Nat.succ hcount, ?_, fun shown hmem => ?_⟩
            · simp only [convertArgs, hconvert, hargs]
              rfl
            · rcases (mem_writtenArgs_cons hconvert).mp hmem with ⟨htype, rfl⟩ | hmem
              · exact hshown htype
              · exact hwritten shown hmem
        · rintro ⟨hcount, hargs, hwritten⟩
          obtain ⟨converted, hconvert, hargs⟩ := exists_of_bind_eq_ok hargs
          obtain ⟨rest, hrest, hargs⟩ := exists_of_bind_eq_ok hargs
          cases hargs
          have hmem (shown : Value) :
              shown ∈ writtenArgs (.value type :: params) (v :: given) ↔ _ :=
            mem_writtenArgs_cons hconvert
          refine .cons (Value.convertTo?_eq_some_iff.mpr ⟨fun htype => ?_, hconvert⟩)
            ((ih hothers).mpr ⟨Nat.succ.inj hcount, hrest, fun shown h => ?_⟩)
          · exact hwritten v ((hmem v).mpr (.inl ⟨htype, rfl⟩))
          · exact hwritten shown ((hmem shown).mpr (.inr h))

/-- The arguments can be passed if there is one for each parameter and each of them converts. -/
theorem exists_passes_iff : (∃ received, Passes write params given received) ↔
    given.length = params.length ∧ ∀ pair ∈ params.zip given, pair.1.Converts write pair.2 := by
  induction params generalizing given with
  | nil =>
    constructor
    · rintro ⟨received, ⟨⟩⟩
      exact ⟨rfl, by simp⟩
    · rintro ⟨hcount, -⟩
      obtain rfl := List.length_eq_zero_iff.mp hcount
      exact ⟨[], .nil⟩
  | cons param params ih =>
    cases given with
    | nil => exact ⟨fun ⟨received, h⟩ => (by cases h), fun h => (by cases h.1)⟩
    | cons v given =>
      rw [List.zip_cons_cons, List.forall_mem_cons, List.length_cons, List.length_cons,
        Nat.add_right_cancel_iff, and_left_comm, ← ih]
      constructor
      · rintro ⟨received, h⟩
        cases h with
        | cons h hrest => exact ⟨⟨_, h⟩, _, hrest⟩
      · rintro ⟨hfirst, received, hrest⟩
        cases param with
        | owner => exact hfirst.elim
        | value type =>
          obtain ⟨converted, h⟩ := hfirst
          exact ⟨converted :: received, .cons h hrest⟩

theorem Passes.unique {other : List Value} (h : Passes write params given received)
    (h' : Passes write params given other) : other = received := by
  induction h generalizing other with
  | nil =>
    cases h'
    rfl
  | cons h _ ih =>
    cases h' with
    | cons h' hrest' =>
      rw [ih hrest', Except.ok.inj (Option.some.inj (h.symm.trans h'))]

end

/-! ## Shapes -/

/-- The owner is the first parameter, and the others are for values. -/
structure Shaped (code : CodeReference) : Prop where
  first : code.params.head? = some .owner
  others : .owner ∉ code.valueParams

variable {code : CodeReference} {returned : Option ValueType}

/-- There is a parameter to be left out when the arguments are counted. -/
theorem Shaped.length_valueParams (h : code.Shaped) :
    code.params.length = code.valueParams.length + 1 := by
  obtain ⟨rest, hparams⟩ := List.head?_eq_some_iff.mp h.first
  rw [valueParams, hparams]
  rfl

theorem shaped_of_getterFault? (h : code.getterFault? = none) :
    code.Shaped ∧ code.valueParams = [] := by
  unfold getterFault? at h
  split at h
  next hshape =>
    have hvalues : code.valueParams = [] := by
      rw [valueParams, hshape.1]
      rfl
    exact ⟨⟨by rw [hshape.1]; rfl, by simp [hvalues]⟩, hvalues⟩
  next => cases h

theorem shaped_of_setterFault? (h : code.setterFault? returned = none) :
    code.Shaped ∧ ∃ type, code.valueParams = [.value type] := by
  unfold setterFault? at h
  have hshape : ∃ type, code.params = [.owner, .value type] := by
    split at h
    next hparams => exact ⟨_, hparams⟩
    next hparams => exact ⟨_, hparams⟩
    next => cases h
  obtain ⟨type, hparams⟩ := hshape
  have hvalues : code.valueParams = [.value type] := by
    rw [valueParams, hparams]
    rfl
  exact ⟨⟨by rw [hparams]; rfl, by simp [hvalues]⟩, type, hvalues⟩

theorem shaped_of_methodFault? (h : code.methodFault? = none) : code.Shaped := by
  unfold methodFault? at h
  split at h
  next rest hparams =>
    split at h
    · cases h
    next hothers =>
      refine ⟨by rw [hparams]; rfl, ?_⟩
      rw [valueParams, hparams]
      simpa using hothers
  next => cases h

end CodeReference

/-! ## Accesses of members with native code -/

namespace Access

def member : Access → Member
  | value m | setValue m _ | invoke m _ => m

def purpose : Access → Purpose
  | value _ => .get
  | setValue .. => .set
  | invoke .. => .invoke

def run? (env : Environment) (s : Store) : Access → Option (Except MemberError Value × Store)
  | value m => m.value? env s
  | setValue m v => (m.setValue? env v s).map fun answer => (answer.1.map fun _ => .null, answer.2)
  | invoke m args => m.invokeWith? env .none args s

/-- What the caller hands over: nothing to read a value, the value to be written, or the arguments
of a call. -/
def given : Access → List Value
  | value _ => []
  | setValue _ v => [v]
  | invoke _ args => args

/-- The callable that the member has for the access. -/
def accessor? (access : Access) : Option CodeReference :=
  match access, access.member.kind with
  | value _, .code getter _ => getter
  | setValue .., .code _ setter => setter
  | invoke .., .codeMethod code => some code
  | _, _ => none

/-- A code property is read or written, or a code method is called. -/
inductive IsNative : Access → Prop
  | value {m : Member} {getter setter : Option CodeReference} (h : m.kind = .code getter setter) :
      IsNative (value m)
  | setValue {m : Member} {getter setter : Option CodeReference} {v : Value}
      (h : m.kind = .code getter setter) : IsNative (setValue m v)
  | invoke {m : Member} {code : CodeReference} {args : List Value} (h : m.kind = .codeMethod code) :
      IsNative (invoke m args)

/-- All is there for a call: the accessor, the owner, and what the accessor receives. -/
structure Ready (adapter : Adapter) (s : Store) (access : Access) (code : CodeReference)
    (owner : ObjectId) (received : List Value) : Prop where
  accessor : access.accessor? = some code
  owner : s.ownerOf access.member = some owner
  passes : CodeReference.Passes (s.text? adapter) code.valueParams access.given received

/-- All is there for a call but for the texts that are written meanwhile. -/
structure Supplied (adapter : Adapter) (s : Store) (access : Access) (code : CodeReference)
    (owner : ObjectId) (received : List Value) : Prop where
  accessor : access.accessor? = some code
  owner : s.ownerOf access.member = some owner
  count : access.given.length = code.valueParams.length
  args : CodeReference.convertArgs (s.text adapter) code.valueParams access.given = .ok received

def isTold (adapter : Adapter) (s : Store) (access : Access) (code : CodeReference) : Bool :=
  (CodeReference.writtenArgs code.valueParams access.given).all fun v => (s.text? adapter v).isSome

/-- The type of what comes back through the callable: what it declares to return, and nothing where
a value is written. -/
def returns (access : Access) (code : CodeReference) : Option ValueType :=
  match access with
  | setValue .. => none
  | value _ | invoke .. => code.returns

/-- What an access answers when the callable has returned a value. -/
def settledValue? (write : Value → Option String) (access : Access) (code : CodeReference)
    (v : Value) : Option (Except MemberError Value) :=
  match access.returns code with
  | none => some (.ok .null)
  | some type => (v.convertTo? write type).map (·.mapError (.conversion access.member.name))

/-- What an access makes of the outcome of its one call. The store is left as the callable leaves
it. -/
def settled? (adapter : Adapter) (access : Access) (code : CodeReference) (call : Call) :
    Except Failure Value × Store → Option (Except MemberError Value × Store)
  | (.error failure, t) => some (.error (call.wrap failure), t)
  | (.ok v, t) => (access.settledValue? (t.text? adapter) code v).map (·, t)

def readyCall (access : Access) (code : CodeReference) (owner : ObjectId)
    (received : List Value) : Call :=
  ⟨access.member.name, access.purpose, .native code owner received⟩

variable {env : Environment} {s t : Store} {access : Access} {code : CodeReference}
  {owner : ObjectId} {received : List Value} {call : Call}

theorem shaped_of_accessor? (hm : access.member.kind.fault? = none)
    (h : access.accessor? = some code) : code.Shaped := by
  unfold accessor? at h
  split at h
  next getter setter hkind =>
    subst h
    rw [hkind] at hm
    exact (CodeReference.shaped_of_getterFault? (Option.or_eq_none_iff.mp hm).1).1
  next getter setter hkind =>
    subst h
    rw [hkind] at hm
    cases getter with
    | none => exact (CodeReference.shaped_of_setterFault? hm).1
    | some getter => exact (CodeReference.shaped_of_setterFault? (Option.or_eq_none_iff.mp hm).2).1
  next callee hkind =>
    cases h
    rw [hkind] at hm
    exact CodeReference.shaped_of_methodFault? hm
  next => cases h

section

variable {m : Member} {getter setter : Option CodeReference} {v : Value} {args : List Value}

theorem valueParams_getter (hm : m.kind.fault? = none) (hkind : m.kind = .code (some code) setter) :
    code.valueParams = [] := by
  rw [hkind] at hm
  exact (CodeReference.shaped_of_getterFault? (Option.or_eq_none_iff.mp hm).1).2

theorem returns_getter (hm : m.kind.fault? = none) (hkind : m.kind = .code (some code) setter) :
    ∃ type, code.returns = some type := by
  rw [hkind] at hm
  obtain ⟨type, htype, -⟩ := CodeReference.exists_returns (Option.or_eq_none_iff.mp hm).1
  exact ⟨type, htype⟩

theorem valueParams_setter (hm : m.kind.fault? = none) (hkind : m.kind = .code getter (some code)) :
    ∃ type, code.valueParams = [.value type] := by
  rw [hkind] at hm
  cases getter with
  | none => exact (CodeReference.shaped_of_setterFault? hm).2
  | some getter => exact (CodeReference.shaped_of_setterFault? (Option.or_eq_none_iff.mp hm).2).2

theorem shaped_method (hm : m.kind.fault? = none) (hkind : m.kind = .codeMethod code) :
    code.Shaped := by
  rw [hkind] at hm
  exact CodeReference.shaped_of_methodFault? hm

/-! ### When all is there -/

theorem supplied_value (hm : m.kind.fault? = none) (hkind : m.kind = .code (some code) setter)
    (howner : s.ownerOf m = some owner) : (value m).Supplied env.adapter s code owner [] where
  accessor := by simp only [accessor?, member, hkind]
  owner := howner
  count := by
    rw [valueParams_getter hm hkind]
    rfl
  args := by
    rw [valueParams_getter hm hkind]
    rfl

theorem supplied_setValue {accepted : Value} (hm : m.kind.fault? = none)
    (hkind : m.kind = .code getter (some code)) (howner : s.ownerOf m = some owner)
    (haccept : code.accept (s.text env.adapter) v = .ok accepted) :
    (setValue m v).Supplied env.adapter s code owner [accepted] := by
  obtain ⟨type, hparams⟩ := valueParams_setter hm hkind
  rw [CodeReference.accept, hparams] at haccept
  have hconvert : v.convertTo (s.text env.adapter) type = .ok accepted := haccept
  constructor
  case accessor => simp only [accessor?, member, hkind]
  case owner => exact howner
  case count =>
    rw [hparams]
    rfl
  case args =>
    rw [hparams, given, CodeReference.convertArgs, hconvert]
    rfl

theorem supplied_invoke (hm : m.kind.fault? = none) (hkind : m.kind = .codeMethod code)
    (howner : s.ownerOf m = some owner) (hcount : args.length = code.params.length - 1)
    (hargs : CodeReference.convertArgs (s.text env.adapter) code.valueParams args = .ok received) :
    (invoke m args).Supplied env.adapter s code owner received where
  accessor := by simp only [accessor?, member, hkind]
  owner := howner
  count := by rw [given, hcount, (shaped_method hm hkind).length_valueParams, Nat.add_sub_cancel]
  args := hargs

end

/-- All is there exactly if nothing but texts could be missing, and these are not. -/
theorem ready_iff (hm : access.member.kind.fault? = none) :
    access.Ready env.adapter s code owner received ↔
      access.Supplied env.adapter s code owner received ∧
        access.isTold env.adapter s code = true := by
  have hpasses (haccessor : access.accessor? = some code) :=
    @CodeReference.passes_iff_convertArgs (s.text? env.adapter) code.valueParams access.given
      received (shaped_of_accessor? hm haccessor).others
  rw [isTold, List.all_eq_true]
  constructor
  · rintro ⟨haccessor, howner, h⟩
    obtain ⟨hcount, hargs, htold⟩ := (hpasses haccessor).mp h
    exact ⟨⟨haccessor, howner, hcount, hargs⟩, htold⟩
  · rintro ⟨⟨haccessor, howner, hcount, hargs⟩, htold⟩
    exact ⟨haccessor, howner, (hpasses haccessor).mpr ⟨hcount, hargs, htold⟩⟩

/-! ### Calls -/

/-- Whenever a native callable is called, nothing but texts is missing. -/
theorem Direct.supplied (h : Direct env s access call) (hm : access.member.kind.fault? = none)
    (hnative : access.IsNative) : ∃ code owner received,
      access.Supplied env.adapter s code owner received ∧
        call = access.readyCall code owner received := by
  cases h with
  | getCode hkind howner => exact ⟨_, _, _, supplied_value hm hkind howner, rfl⟩
  | setCode hkind howner haccept =>
    exact ⟨_, _, _, supplied_setValue hm hkind howner haccept, rfl⟩
  | invokeCode hkind howner hcount hargs =>
    exact ⟨_, _, _, supplied_invoke hm hkind howner hcount hargs, rfl⟩
  | getScript hkind | setScript hkind | invokeScript hkind =>
    cases hnative with | _ hcode => cases hkind.symm.trans hcode

theorem Supplied.direct (h : access.Supplied env.adapter s code owner received)
    (hm : access.member.kind.fault? = none) (hnative : access.IsNative) :
    Direct env s access (access.readyCall code owner received) := by
  obtain ⟨haccessor, howner, hcount, hargs⟩ := h
  cases hnative with
  | value hkind =>
    simp only [accessor?, member, hkind] at haccessor
    subst haccessor
    rw [valueParams_getter hm hkind] at hargs
    cases hargs
    exact .getCode hkind howner
  | setValue hkind =>
    simp only [accessor?, member, hkind] at haccessor
    subst haccessor
    obtain ⟨type, hparams⟩ := valueParams_setter hm hkind
    rw [hparams] at hargs
    obtain ⟨accepted, haccept, hargs⟩ := exists_of_bind_eq_ok hargs
    cases hargs
    refine .setCode hkind howner ?_
    rw [CodeReference.accept, hparams]
    exact haccept
  | invoke hkind =>
    simp only [accessor?, member, hkind, Option.some.injEq] at haccessor
    subst haccessor
    refine .invokeCode hkind howner ?_ hargs
    rw [(shaped_method hm hkind).length_valueParams, Nat.add_sub_cancel]
    exact hcount

/-- The access makes the one call for which nothing but texts is missing, with the store as it is.
-/
theorem makes_iff (hm : access.member.kind.fault? = none) (hnative : access.IsNative) :
    access.Makes env s call t ↔ t = s ∧ ∃ code owner received,
      access.Supplied env.adapter s code owner received ∧
        call = access.readyCall code owner received := by
  constructor
  · intro h
    cases h with
    | direct h => exact ⟨rfl, h.supplied hm hnative⟩
    | getAlias hkind | setAlias hkind =>
      cases hnative with | _ hcode => cases hkind.symm.trans hcode
  · rintro ⟨rfl, code, owner, received, h, rfl⟩
    exact .direct (h.direct hm hnative)

/-! ### Outcomes -/

theorem run_mapFailure_then {α β ε δ : Type} (f : ε → δ) (x : Run ε α) (k : α → Run δ β)
    (s : Store) : (x.mapFailure f >>= k).run.run s =
      match x.run.run s with
      | (.ok a, t) => (k a).run.run t
      | (.error failure, t) => (.error (f failure), t) := by
  obtain ⟨outcome, t, hx⟩ : ∃ outcome t, x.run.run s = (outcome, t) := ⟨_, _, rfl⟩
  rw [hx]
  cases outcome with
  | ok a => exact run_then_of_ok (by rw [run_mapFailure, hx]; rfl)
  | error failure => exact run_then_of_error (by rw [run_mapFailure, hx]; rfl)

theorem run_convertFor (m : Member) (type : ValueType) (v : Value) (s : Store) :
    (convertFor env m type v).run.run s =
      ((v.convertTo (s.text env.adapter) type).mapError (.conversion m.name), s) := by
  rw [convertFor, run_read_then]
  cases v.convertTo (s.text env.adapter) type <;> rfl

/-- What is returned is settled as a conversion of it is, if there is one. -/
theorem settledValue?_eq_some {v : Value} {type : ValueType}
    {answer : Except MemberError Value}
    (h : access.settledValue? (t.text? env.adapter) code v = some answer)
    (hreturns : access.returns code = some type) :
    (v.convertTo (t.text env.adapter) type).mapError (.conversion access.member.name) =
      answer := by
  unfold settledValue? at h
  simp only [hreturns] at h
  obtain ⟨converted, hconvert, rfl⟩ := Option.map_eq_some_iff.mp h
  rw [← (Value.convertTo?_eq_some_iff.mp hconvert).2]
  rfl

theorem isSome_settled? (call : Call) (x : Run Failure Value) :
    (access.settled? env.adapter code call (x.run.run s)).isSome =
      x.finishes env.adapter (access.returns code) s := by
  unfold Run.finishes
  obtain ⟨outcome, t, hx⟩ : ∃ outcome t, x.run.run s = (outcome, t) := ⟨_, _, rfl⟩
  rw [hx]
  cases outcome with
  | error failure => rfl
  | ok v =>
    unfold settled? settledValue? finishes
    cases access.returns code with
    | none => rfl
    | some type => simp only [Option.isSome_map, Option.all_some]

/-- If nothing but texts is missing, the outcome is made of that of the call. -/
theorem run_of_supplied {answer : Except MemberError Value × Store}
    (h : access.Supplied env.adapter s code owner received)
    (hm : access.member.kind.fault? = none) (hnative : access.IsNative)
    (hanswer : access.settled? env.adapter code (access.readyCall code owner received)
      ((code.call env owner received).run.run s) = some answer) :
    (access.run env).run.run s = answer := by
  obtain ⟨outcome, t, hcall⟩ : ∃ outcome t,
    (code.call env owner received).run.run s = (outcome, t) := ⟨_, _, rfl⟩
  have hdirect := h.direct hm hnative
  rw [hcall] at hanswer
  cases hnative with
  | @value m getter setter hkind =>
    cases hdirect with
    | getCode hgetter howner =>
      obtain ⟨type, hreturns⟩ := returns_getter hm hgetter
      rw [run, Member.value]
      simp only [hkind]
      rw [Member.valueItself, run_read_then]
      simp only [hgetter, howner]
      rw [run_mapFailure_then, hcall]
      cases outcome with
      | error failure => exact Option.some.inj hanswer
      | ok v =>
        obtain ⟨settled, hsettled, rfl⟩ := Option.map_eq_some_iff.mp hanswer
        simp only [hreturns, run_convertFor]
        exact congrArg (·, t) (settledValue?_eq_some hsettled hreturns)
  | @setValue m getter setter v hkind =>
    cases hdirect with
    | @setCode _ _ _ _ _ accepted hsetter howner haccept =>
      obtain ⟨type, hparams⟩ := valueParams_setter hm hsetter
      rw [CodeReference.accept, hparams] at haccept
      have hconvert : (convertFor env m type v).run.run s = (.ok accepted, s) := by
        rw [run_convertFor, show v.convertTo _ type = _ from haccept]
        rfl
      rw [run, Member.setValue]
      simp only [hkind]
      rw [Member.setValueItself]
      simp only [bind_assoc]
      rw [run_read_then]
      simp only [hsetter, howner, hparams, List.head?_cons, bind_assoc]
      rw [run_then_of_ok hconvert, run_mapFailure_then, hcall]
      cases outcome <;> exact Option.some.inj hanswer
  | @invoke m callee args hkind =>
    cases hdirect with
    | invokeCode hmethod howner hcount hargs =>
      rw [run, Member.invoke, Member.invokeWith, run_read_then]
      simp only [hmethod]
      rw [Member.invokeCode, run_read_then]
      simp only [howner, hcount, hargs, ne_eq, not_true_eq_false, if_false]
      rw [run_mapFailure_then, hcall]
      cases outcome with
      | error failure => exact Option.some.inj hanswer
      | ok v =>
        obtain ⟨settled, hsettled, rfl⟩ := Option.map_eq_some_iff.mp hanswer
        cases hreturns : code.returns with
        | none =>
          simp only [settledValue?, returns, hreturns] at hsettled
          exact congrArg (·, t) (Option.some.inj hsettled)
        | some type =>
          simp only [run_convertFor]
          exact congrArg (·, t) (settledValue?_eq_some hsettled hreturns)

section

variable {m : Member} {v : Value} {args : List Value}

theorem fails_value {getter setter : Option CodeReference} (hm : m.kind.fault? = none)
    (hkind : m.kind = .code getter setter)
    (h : ¬ ∃ code owner received, (value m).Supplied env.adapter s code owner received) :
    ∃ failure, ∀ other : Environment, ((value m).run other).run.run s = (.error failure, s) := by
  have hrun (other : Environment) : (value m).run other = m.valueItself other := by
    rw [run, Member.value]
    simp only [hkind]
  simp only [hrun, Member.valueItself, run_read_then, hkind]
  cases getter with
  | none => exact ⟨.getValue m.name .noGetter, fun _ => rfl⟩
  | some getter =>
    cases howner : s.ownerOf m with
    | none => exact ⟨.getValue m.name .detached, fun _ => rfl⟩
    | some owner => exact absurd ⟨_, _, _, supplied_value hm hkind howner⟩ h

theorem fails_setValue {getter setter : Option CodeReference} (hm : m.kind.fault? = none)
    (hkind : m.kind = .code getter setter)
    (h : ¬ ∃ code owner received, (setValue m v).Supplied env.adapter s code owner received) :
    ∃ failure, ∀ other : Environment, other.adapter = env.adapter →
      ((setValue m v).run other).run.run s = (.error failure, s) := by
  have hrun (other : Environment) : (setValue m v).run other = do
      m.setValueItself other v
      return .null := by
    rw [run, Member.setValue]
    simp only [hkind]
  simp only [hrun, Member.setValueItself, bind_assoc, run_read_then, hkind]
  cases setter with
  | none => exact ⟨.setValue m.name .readOnly, fun _ _ => rfl⟩
  | some setter =>
    cases howner : s.ownerOf m with
    | none => exact ⟨.setValue m.name .detached, fun _ _ => rfl⟩
    | some owner =>
      obtain ⟨type, hparams⟩ := valueParams_setter hm hkind
      have haccept : setter.accept (s.text env.adapter) v =
          v.convertTo (s.text env.adapter) type := by
        rw [CodeReference.accept, hparams]
        rfl
      cases hconvert : v.convertTo (s.text env.adapter) type with
      | ok accepted =>
        exact absurd ⟨_, _, _, supplied_setValue hm hkind howner (haccept.trans hconvert)⟩ h
      | error fault =>
        refine ⟨.conversion m.name fault, fun other hadapter => ?_⟩
        simp only [hparams, List.head?_cons, bind_assoc]
        refine run_then_of_error ?_
        rw [run_convertFor, hadapter, hconvert]
        rfl

theorem fails_invoke (hm : m.kind.fault? = none) (hkind : m.kind = .codeMethod code)
    (h : ¬ ∃ code owner received, (invoke m args).Supplied env.adapter s code owner received) :
    ∃ failure, ∀ other : Environment, other.adapter = env.adapter →
      ((invoke m args).run other).run.run s = (.error failure, s) := by
  have hrun (other : Environment) :
      ((invoke m args).run other).run.run s = (m.invokeCode other code args).run.run s := by
    rw [run, Member.invoke, Member.invokeWith, run_read_then]
    simp only [hkind]
  cases howner : s.ownerOf m with
  | none =>
    refine ⟨.methodInvocation m.name .detached, fun other _ => ?_⟩
    rw [hrun, Member.invokeCode, run_read_then]
    simp only [howner]
    rfl
  | some owner =>
    by_cases hcount : args.length = code.params.length - 1
    · cases hargs : CodeReference.convertArgs (s.text env.adapter) code.valueParams args with
      | ok converted => exact absurd ⟨_, _, _, supplied_invoke hm hkind howner hcount hargs⟩ h
      | error fault =>
        refine ⟨.methodInvocation m.name (.conversion fault), fun other hadapter => ?_⟩
        rw [hrun, Member.invokeCode, run_read_then]
        simp only [howner, hcount, ne_eq, not_true_eq_false, if_false, hadapter, hargs]
        rfl
    · refine ⟨.methodInvocation m.name (.arity (code.params.length - 1) args.length),
        fun other _ => ?_⟩
      rw [hrun, Member.invokeCode, run_read_then]
      simp only [howner]
      rw [if_pos hcount]
      rfl

end

/-- If anything but texts is missing, the access fails before anything is called, and the same way
whatever the callables do. -/
theorem fails_of_not_supplied (hm : access.member.kind.fault? = none) (hnative : access.IsNative)
    (h : ¬ ∃ code owner received, access.Supplied env.adapter s code owner received) :
    ∃ failure, ∀ other : Environment, other.adapter = env.adapter →
      (access.run other).run.run s = (.error failure, s) := by
  cases hnative with
  | value hkind =>
    obtain ⟨failure, hfailure⟩ := fails_value hm hkind h
    exact ⟨failure, fun other _ => hfailure other⟩
  | setValue hkind => exact fails_setValue hm hkind h
  | invoke hkind => exact fails_invoke hm hkind h

/-! ### Answers -/

def answers (env : Environment) (s : Store) : Access → Bool
  | value m => m.answers env s
  | setValue m v => m.accepts env s v
  | invoke m args => m.answersCall env s .none args

theorem run?_eq (env : Environment) (access : Access) (s : Store) : access.run? env s =
    if access.answers env s then some ((access.run env).run.run s) else none := by
  cases access with
  | value m => rfl
  | setValue m v =>
    rw [run?, Member.setValue?, answers]
    obtain ⟨outcome, t, hset⟩ : ∃ outcome t, (m.setValue env v).run.run s = (outcome, t) :=
      ⟨_, _, rfl⟩
    have hrun : ((setValue m v).run env).run.run s = (outcome.map fun _ => .null, t) := by
      cases outcome with
      | ok done => exact run_then_of_ok hset
      | error failure => exact run_then_of_error hset
    rw [hrun, hset]
    cases m.accepts env s v <;> rfl
  | invoke m args => rfl

/-- If nothing but texts is missing, there is an answer if these are not missing either, and what is
returned can be converted. -/
theorem answers_of_supplied (h : access.Supplied env.adapter s code owner received)
    (hm : access.member.kind.fault? = none) (hnative : access.IsNative) :
    access.answers env s = (access.isTold env.adapter s code &&
      (code.call env owner received).finishes env.adapter (access.returns code) s) := by
  have hdirect := h.direct hm hnative
  cases hnative with
  | @value m getter setter hkind =>
    cases hdirect with
    | getCode hgetter howner =>
      have htold : (value m).isTold env.adapter s code = true := by
        rw [isTold, valueParams_getter hm hgetter]
        rfl
      rw [answers, Member.answers, htold, Bool.true_and]
      simp only [hgetter, Member.answersItself, howner]
      rfl
  | @setValue m getter setter v hkind =>
    cases hdirect with
    | setCode hsetter howner haccept =>
      obtain ⟨type, hparams⟩ := valueParams_setter hm hsetter
      rw [returns, Run.finishes_none, Bool.and_true, answers, Member.accepts, isTold, hparams,
        given, CodeReference.all_writtenArgs_singleton]
      simp only [hsetter, Member.acceptsItself, howner, hparams, List.head?_cons]
      rfl
  | @invoke m callee args hkind =>
    cases hdirect with
    | invokeCode hmethod howner hcount hconvert =>
      rw [answers, Member.answersCall, Member.writtenFor, Member.returnFinishes, isTold]
      simp only [hmethod, howner, hcount, CodeReference.returnFinishes, hconvert, given, returns,
        Option.isSome_some, BEq.rfl, Bool.and_self, if_true, bne_self_eq_false, Bool.false_or]

/-- The answer is made of the outcome of the call, if there is a text of everything that is written
before. -/
theorem run?_of_supplied (h : access.Supplied env.adapter s code owner received)
    (hm : access.member.kind.fault? = none) (hnative : access.IsNative) :
    access.run? env s = if access.isTold env.adapter s code then
      access.settled? env.adapter code (access.readyCall code owner received)
        ((code.call env owner received).run.run s) else none := by
  rw [run?_eq, answers_of_supplied h hm hnative,
    ← isSome_settled? (access.readyCall code owner received)]
  cases access.isTold env.adapter s code with
  | false => rfl
  | true =>
    rw [Bool.true_and, if_pos rfl]
    cases hsettled : access.settled? env.adapter code (access.readyCall code owner received)
      ((code.call env owner received).run.run s) with
    | none => rfl
    | some answer =>
      rw [run_of_supplied h hm hnative hsettled]
      rfl

/-- If anything but texts is missing, it does not depend on the callables whether there is an
answer. -/
theorem answers_of_not_supplied (hm : access.member.kind.fault? = none) (hnative : access.IsNative)
    (h : ¬ ∃ code owner received, access.Supplied env.adapter s code owner received)
    {other : Environment} (hadapter : other.adapter = env.adapter) :
    access.answers other s = access.answers env s := by
  cases hnative with
  | @value m getter setter hkind =>
    simp only [answers, Member.answers, hkind, Member.answersItself]
    cases getter with
    | none => rfl
    | some getter =>
      cases howner : s.ownerOf m with
      | none => rfl
      | some owner => exact absurd ⟨_, _, _, supplied_value hm hkind howner⟩ h
  | setValue hkind =>
    simp only [answers, Member.accepts, hkind, Member.acceptsItself, hadapter]
  | @invoke m code args hkind =>
    simp only [answers, Member.answersCall, Member.writtenFor, hkind, Member.returnFinishes,
      hadapter]
    cases howner : s.ownerOf m with
    | none => rfl
    | some owner =>
      by_cases hcount : args.length = code.params.length - 1
      · cases hargs : CodeReference.convertArgs (s.text env.adapter) code.valueParams args with
        | ok converted =>
          exact absurd ⟨_, _, _, supplied_invoke hm hkind howner hcount hargs⟩ h
        | error fault => simp only [CodeReference.returnFinishes, hadapter, hargs]
      · have hmiscounted : (args.length != code.params.length - 1) = true := bne_iff_ne.mpr hcount
        simp only [hmiscounted, Bool.true_or]

theorem Supplied.unique {code' : CodeReference} {owner' : ObjectId} {received' : List Value}
    (h : access.Supplied env.adapter s code owner received)
    (h' : access.Supplied env.adapter s code' owner' received') :
    code' = code ∧ owner' = owner ∧ received' = received := by
  obtain rfl := Option.some.inj (h'.accessor.symm.trans h.accessor)
  exact ⟨rfl, Option.some.inj (h'.owner.symm.trans h.owner),
    Except.ok.inj (h'.args.symm.trans h.args)⟩

/-- The answer is of the type that is to come back, and nothing if nothing is. -/
def Answers (access : Access) (code : CodeReference) (v : Value) : Prop :=
  match access.returns code with
  | none => v = .null
  | some type => (ParamType.value type).Admits v

theorem answers_of_settledValue? {v answer : Value}
    (h : access.settledValue? (t.text? env.adapter) code v = some (.ok answer)) :
    access.Answers code answer := by
  unfold Answers
  cases hreturns : access.returns code with
  | none =>
    simp only [settledValue?, hreturns] at h
    exact (Except.ok.inj (Option.some.inj h)).symm
  | some type =>
    have hanswer := settledValue?_eq_some h hreturns
    cases hconvert : v.convertTo (t.text env.adapter) type with
    | error fault =>
      rw [hconvert] at hanswer
      cases hanswer
    | ok converted =>
      rw [hconvert] at hanswer
      cases hanswer
      exact ParamType.admits_of_convertTo hconvert

/-! ### The promise -/

/-- The access calls the callable with what was received for what was given, and does nothing else.
-/
structure CallsOnce (env : Environment) (s : Store) (access : Access) (code : CodeReference)
    (owner : ObjectId) (received : List Value) : Prop where
  only : ∀ call t, access.Makes env s call t ↔ call = access.readyCall code owner received ∧ t = s
  /-- There is an answer unless what is returned has to be written and has no text. -/
  outcome : access.run? env s =
    access.settled? env.adapter code (access.readyCall code owner received)
      ((code.call env owner received).run.run s)
  typed : List.Forall₂ ParamType.Admits code.valueParams received

/-- The access fails without a call, unless it never comes to an end, and the same way whatever the
callables do. -/
structure Refuses (env : Environment) (s : Store) (access : Access) : Prop where
  uncalled : access.run? env s ≠ none → ∀ call t, ¬ access.Makes env s call t
  outcome : ∃ outcome, (outcome = none ∨ ∃ failure, outcome = some (.error failure, s)) ∧
    ∀ other : Environment, other.adapter = env.adapter → access.run? other s = outcome

theorem Ready.callsOnce (h : access.Ready env.adapter s code owner received)
    (hm : access.member.kind.fault? = none) (hnative : access.IsNative) :
    access.CallsOnce env s code owner received := by
  obtain ⟨hsupplied, htold⟩ := (ready_iff hm).mp h
  constructor
  case only =>
    intro call t
    rw [makes_iff hm hnative]
    constructor
    · rintro ⟨rfl, code', owner', received', h', rfl⟩
      obtain ⟨rfl, rfl, rfl⟩ := hsupplied.unique h'
      exact ⟨rfl, rfl⟩
    · rintro ⟨rfl, rfl⟩
      exact ⟨rfl, _, _, _, hsupplied, rfl⟩
  case outcome => rw [run?_of_supplied hsupplied hm hnative, if_pos htold]
  case typed => exact h.passes.admits

theorem refuses_of_not_ready (hm : access.member.kind.fault? = none) (hnative : access.IsNative)
    (h : ¬ ∃ code owner received, access.Ready env.adapter s code owner received) :
    access.Refuses env s := by
  by_cases hsupplied : ∃ code owner received, access.Supplied env.adapter s code owner received
  · -- A text is missing that is written while the arguments are converted.
    obtain ⟨code, owner, received, hsupplied⟩ := hsupplied
    have huntold : ¬ access.isTold env.adapter s code = true := fun htold =>
      h ⟨code, owner, received, (ready_iff hm).mpr ⟨hsupplied, htold⟩⟩
    have hendless (other : Environment) (hadapter : other.adapter = env.adapter) :
        access.run? other s = none := by
      rw [run?_of_supplied (hadapter ▸ hsupplied) hm hnative, hadapter, if_neg huntold]
    exact ⟨fun hanswer => absurd (hendless env rfl) hanswer, none, .inl rfl, hendless⟩
  · obtain ⟨failure, hfailure⟩ := fails_of_not_supplied hm hnative hsupplied
    refine ⟨fun _ call t hmakes => ?_,
      if access.answers env s then some (.error failure, s) else none, ?_,
      fun other hadapter => ?_⟩
    · obtain ⟨-, code, owner, received, h', -⟩ := (makes_iff hm hnative).mp hmakes
      exact hsupplied ⟨code, owner, received, h'⟩
    · cases access.answers env s with
      | false => exact .inl rfl
      | true => exact .inr ⟨failure, rfl⟩
    · rw [run?_eq, answers_of_not_supplied hm hnative hsupplied hadapter, hfailure other hadapter]

theorem answers_of_ok {v : Value} (hm : access.member.kind.fault? = none)
    (hnative : access.IsNative) (hrun : access.run? env s = some (.ok v, t)) :
    ∃ code owner received, access.Ready env.adapter s code owner received ∧
      access.Answers code v := by
  by_cases h : ∃ code owner received, access.Ready env.adapter s code owner received
  · obtain ⟨code, owner, received, hready⟩ := h
    refine ⟨code, owner, received, hready, ?_⟩
    rw [(hready.callsOnce hm hnative).outcome] at hrun
    obtain ⟨outcome, u, hcall⟩ : ∃ outcome u,
      (code.call env owner received).run.run s = (outcome, u) := ⟨_, _, rfl⟩
    rw [hcall] at hrun
    cases outcome with
    | error failure => cases hrun
    | ok returned =>
      obtain ⟨answer, hsettled, hanswer⟩ := Option.map_eq_some_iff.mp hrun
      cases hanswer
      exact answers_of_settledValue? hsettled
  · obtain ⟨-, outcome, hcases, houtcome⟩ := refuses_of_not_ready hm hnative h
    rw [houtcome env rfl] at hrun
    rcases hcases with rfl | ⟨failure, rfl⟩ <;> cases hrun

/-- A native callable is called once where the member has it, the owner is alive, and there is an
argument for each parameter that can be converted to its type; it receives what they are converted
to. Otherwise it is not called, and the access fails, unless an argument is in the way that can
never be written. A success is of the type that the callable declares. -/
theorem callsAsDeclared (hm : access.member.WellDefined) (hnative : access.IsNative) :
    (∀ code, access.accessor? = some code → 0 < code.params.length ∧
      code.params.length - 1 = code.valueParams.length) ∧
    ((∃ code owner received, access.Ready env.adapter s code owner received) ↔
      ∃ code owner, access.accessor? = some code ∧ s.ownerOf access.member = some owner ∧
        access.given.length = code.valueParams.length ∧
        ∀ pair ∈ code.valueParams.zip access.given,
          pair.1.Converts (s.text? env.adapter) pair.2) ∧
    (∀ code owner received, access.Ready env.adapter s code owner received →
      access.CallsOnce env s code owner received) ∧
    ((¬ ∃ code owner received, access.Ready env.adapter s code owner received) →
      access.Refuses env s) ∧
    ∀ v t, access.run? env s = some (.ok v, t) → ∃ code owner received,
      access.Ready env.adapter s code owner received ∧ access.Answers code v := by
  refine ⟨fun code haccessor => ?_, ?_, fun code owner received h => h.callsOnce hm.kind hnative,
    refuses_of_not_ready hm.kind hnative, fun v t => answers_of_ok hm.kind hnative⟩
  · have hcount := (shaped_of_accessor? hm.kind haccessor).length_valueParams
    omega
  · constructor
    · rintro ⟨code, owner, received, h⟩
      exact ⟨code, owner, h.accessor, h.owner, CodeReference.exists_passes_iff.mp ⟨_, h.passes⟩⟩
    · rintro ⟨code, owner, haccessor, howner, hpasses⟩
      obtain ⟨received, hreceived⟩ := CodeReference.exists_passes_iff.mpr hpasses
      exact ⟨code, owner, received, haccessor, howner, hreceived⟩

def double : Member :=
  ⟨.made 0, "Double", .initial, some ⟨0⟩,
    .codeMethod ⟨"double", [.owner, .value .int], some .int, .hosted "double"⟩⟩

def boxed : Store := (Store.initial #[]).after (Store.wrapAs .null ["Box"])

/-- The method is called with the integer that the text stands for, and not at all with another
text. -/
theorem callsAsDeclared_double :
    (double.WellDefined ∧ (invoke double [.string "21"]).IsNative ∧
      (invoke double [.string "21"]).run? (CommandHost.bare.environment 1) boxed =
        some (.ok (.int 42), boxed)) ∧
    (invoke double [.string "one"]).IsNative ∧
      ∀ call t, ¬ (invoke double [.string "one"]).Makes (CommandHost.bare.environment 1) boxed
        call t := by
  have hm : definitionFault? double.name double.kind = none := by decide +kernel
  have hnumber : (invoke double [.string "21"]).IsNative := .invoke rfl
  have hword : (invoke double [.string "one"]).IsNative := .invoke rfl
  obtain ⟨-, -, hcalls, -, -⟩ := @callsAsDeclared (CommandHost.bare.environment 1) boxed
    (invoke double [.string "21"]) hm hnumber
  obtain ⟨-, hiff, -, hrefuses, -⟩ := @callsAsDeclared (CommandHost.bare.environment 1) boxed
    (invoke double [.string "one"]) hm hword
  refine ⟨⟨hm, hnumber, ?_⟩, hword, (hrefuses ?_).uncalled ?_⟩
  · exact (hcalls _ ⟨0⟩ [.int 21] ⟨rfl, rfl, .cons rfl .nil⟩).outcome.trans rfl
  · rw [hiff]
    rintro ⟨code, owner, haccessor, -, -, hconverts⟩
    cases haccessor
    obtain ⟨converted, h⟩ := hconverts (.value .int, .string "one") (List.mem_singleton.mpr rfl)
    cases h
  · exact Option.isSome_iff_ne_none.mp rfl

end Access

end DynamicMembers
