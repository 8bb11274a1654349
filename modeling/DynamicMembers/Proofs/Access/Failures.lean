import DynamicMembers.Proofs.Access.Gates
import DynamicMembers.Proofs.Access.NativeCalls

/-! # How accesses fail

The caller of a member learns from the kind of failure what could not be done, from its name which
member is to blame, and from its source what the code of others had to say. There are fifteen types
of members and three things that can be done with each, and a failure may come up at many places;
but all that can happen to a member that is no alias is said in a few lines (`Access.Fails`). So it
can be read off that every failure is of the kind of the operation and has the name of the member
(`Access.Fails.reports`), and that its source is what the code of others failed with, or why a
native method was not called (`Access.Fails.breaks_or_uncalled`).
-/
namespace DynamicMembers
open Store

def MemberError.source? : MemberError → Option Failure
  | getValueInvocation _ source | setValueInvocation _ source | methodInvocation _ source =>
    some source
  | _ => none

/-- Methods are called; indexed properties are not, although they take arguments. -/
def MemberKind.IsMethod : MemberKind → Prop
  | .method _ | .codeMethod _ | .scriptMethod .. => True
  | _ => False

def MemberKind.IsIndexed : MemberKind → Prop
  | .parameterized _ => True
  | _ => False

namespace Access

/-! ## Kinds of failures -/

/-- The failure is of a kind that the operation has for the member, and it names the member. -/
def Reports : Access → MemberError → Prop
  | value m, .getValue name _ | value m, .getValueInvocation name _
  | value m, .conversion name _ | value m, .invalidOperation name _ => name = m.name
  | value _, .terminated => True
  | setValue m _, .setValue name _ | setValue m _, .setValueInvocation name _
  | setValue m _, .conversion name _ | setValue m _, .invalidOperation name _ => name = m.name
  | setValue .., .terminated => True
  | invoke m _, .methodInvocation name _ | invoke m _, .conversion name _ =>
    m.kind.IsMethod ∧ name = m.name
  | invoke m _, .terminated => m.kind.IsMethod
  | invoke m _, .getValueInvocation name _ => m.kind.IsIndexed ∧ name = m.name
  | invoke m _, .invalidOperation name _ =>
    ¬ m.kind.IsMethod ∧ ¬ m.kind.IsIndexed ∧ name = m.name
  | _, _ => False

/-! ## Failures of the code of others -/

/-- An adapter, a native callable or a script, which the access runs, fails. -/
inductive Breaks (env : Environment) (s : Store) : Access → Failure → Store → Prop
  | native {access : Access} {name : String} {purpose : Purpose} {code : CodeReference}
      {owner : ObjectId} {args : List Value} {failure : Failure} {t : Store}
      (hcall : access.Direct env s ⟨name, purpose, .native code owner args⟩)
      (h : (code.call env owner args).run.run s = (.error failure, t)) :
      Breaks env s access failure t
  | script {access : Access} {name : String} {purpose : Purpose} {i : ScriptId}
      {owner : Option ObjectId} {args : List Value} {policy : RunPolicy} {fault : ScriptError}
      {t : Store} (hcall : access.Direct env s ⟨name, purpose, .script i owner args policy⟩)
      (h : (i.run env owner args policy).run.run s = (.error fault, t)) :
      Breaks env s access (.script fault) t
  | get {m : Member} {binding : Binding} {failure : Failure} (hkind : m.kind = .adapted binding)
      (hallowed : (binding.adapter.adapter env.adapter).isGettable (s.adapterState binding)
        binding.data = true)
      (h : (binding.adapter.adapter env.adapter).get (s.adapterState binding) binding.data =
        .error failure) : Breaks env s (value m) failure s
  | set {m : Member} {v : Value} {binding : Binding} {failure : Failure}
      (hkind : m.kind = .adapted binding)
      (hallowed : (binding.adapter.adapter env.adapter).isSettable (s.adapterState binding)
        binding.data = true)
      (h : (binding.adapter.adapter env.adapter).set (s.adapterState binding) binding.data v =
        .error failure) : Breaks env s (setValue m v) failure s
  | method {m : Member} {args : List Value} {binding : Binding} {failure : Failure}
      (hkind : m.kind = .method binding)
      (h : (binding.adapter.adapter env.adapter).invoke (s.text env.adapter)
        (s.adapterState binding) binding.data .none args = .error failure) :
      Breaks env s (invoke m args) failure s
  | index {m : Member} {args : List Value} {binding : Binding} {failure : Failure}
      (hkind : m.kind = .parameterized binding)
      (h : (binding.adapter.adapter env.adapter).getIndexed (s.text env.adapter)
        (s.adapterState binding) binding.data args = .error failure) :
      Breaks env s (invoke m args) failure s

def wrap : Access → Failure → MemberError
  | value m => .getValueInvocation m.name
  | setValue m _ => .setValueInvocation m.name
  | invoke m _ =>
    match m.kind with
    | .parameterized _ => .getValueInvocation m.name
    | _ => .methodInvocation m.name

def isScripted (access : Access) : Bool :=
  match access.member.kind with
  | .script .. | .scriptMethod .. => true
  | _ => false

/-- What the caller is told of a failure of the code: it is wrapped, but for the termination of a
script of the member. -/
def report (access : Access) (failure : Failure) : MemberError :=
  match access.isScripted, failure with
  | true, .script .terminate => .terminated
  | _, _ => access.wrap failure

/-- Native methods are not called without an owner or with unfit arguments. -/
inductive Uncalled (env : Environment) (s : Store) : Access → Failure → Prop
  | detached {m : Member} {code : CodeReference} {args : List Value}
      (hkind : m.kind = .codeMethod code) (h : s.ownerOf m = none) :
      Uncalled env s (invoke m args) .detached
  | arity {m : Member} {code : CodeReference} {args : List Value}
      (hkind : m.kind = .codeMethod code) (h : args.length ≠ code.params.length - 1) :
      Uncalled env s (invoke m args) (.arity (code.params.length - 1) args.length)
  | conversion {m : Member} {code : CodeReference} {args : List Value} {fault : ConversionError}
      (hkind : m.kind = .codeMethod code)
      (h : CodeReference.convertArgs (s.text env.adapter) code.valueParams args = .error fault) :
      Uncalled env s (invoke m args) (.conversion fault)

/-! ## All ways to fail -/

/-- How an access of a member that is no alias fails, and the store that it leaves. -/
inductive Fails (env : Environment) (s : Store) : Access → MemberError → Store → Prop
  | unread {m : Member} (refusal : GetRefusal) : Fails env s (value m) (.getValue m.name refusal) s
  | unwritten {m : Member} {v : Value} (refusal : SetRefusal) :
      Fails env s (setValue m v) (.setValue m.name refusal) s
  | unknown {m : Member} (misuse : Misuse) :
      Fails env s (value m) (.invalidOperation m.name misuse) s
  | fixed {m : Member} {v : Value} (misuse : Misuse) :
      Fails env s (setValue m v) (.invalidOperation m.name misuse) s
  | misused {m : Member} {args : List Value} (hmethod : ¬ m.kind.IsMethod)
      (hindexed : ¬ m.kind.IsIndexed) (misuse : Misuse) :
      Fails env s (invoke m args) (.invalidOperation m.name misuse) s
  | returned {m : Member} (fault : ConversionError) {t : Store} :
      Fails env s (value m) (.conversion m.name fault) t
  | refused {m : Member} {v : Value} (fault : ConversionError) :
      Fails env s (setValue m v) (.conversion m.name fault) s
  | answered {m : Member} {args : List Value} (hmethod : m.kind.IsMethod) (fault : ConversionError)
      {t : Store} : Fails env s (invoke m args) (.conversion m.name fault) t
  | uncalled {access : Access} {failure : Failure} (h : access.Uncalled env s failure) :
      Fails env s access (access.wrap failure) s
  | broken {access : Access} {failure : Failure} {t : Store}
      (h : access.Breaks env s failure t) : Fails env s access (access.report failure) t

variable {env : Environment} {s t : Store} {access : Access} {failure : Failure}
  {error : MemberError}

theorem report_of_not_scripted (h : access.isScripted = false) :
    access.report failure = access.wrap failure := by
  unfold report
  rw [h]

theorem report_of_scripted (h : access.isScripted = true) (fault : ScriptError) :
    access.report (.script fault) = fault.toMemberError access.wrap := by
  unfold report
  rw [h]
  cases fault <;> rfl

theorem Fails.of_report (h : access.Breaks env s failure t)
    (hreport : access.report failure = error) : access.Fails env s error t :=
  hreport ▸ .broken h

section

variable {m : Member} {v : Value} {args : List Value}

theorem ok_of_convertFor {type : ValueType} {converted : Value}
    (h : (convertFor env m type v).run.run s = (.ok converted, t)) :
    v.convertTo (s.text env.adapter) type = .ok converted ∧ t = s := by
  rw [run_convertFor] at h
  cases hconvert : v.convertTo (s.text env.adapter) type with
  | ok result =>
    rw [hconvert] at h
    cases h
    exact ⟨rfl, rfl⟩
  | error fault =>
    rw [hconvert] at h
    cases h

theorem failed_of_convertFor {type : ValueType}
    (h : (convertFor env m type v).run.run s = (.error error, t)) :
    ∃ fault, error = .conversion m.name fault ∧ t = s := by
  rw [run_convertFor] at h
  cases hconvert : v.convertTo (s.text env.adapter) type with
  | ok converted =>
    rw [hconvert] at h
    cases h
  | error fault =>
    rw [hconvert] at h
    cases h
    exact ⟨fault, rfl, rfl⟩

/-! ### Reading -/

theorem fails_of_valueItself (h : (m.valueItself env).run.run s = (.error error, t)) :
    (value m).Fails env s error t := by
  rw [Member.valueItself, run_read_then] at h
  cases hkind : m.kind with
  | code getter setter =>
    simp only [hkind] at h
    cases getter with
    | none =>
      cases h
      exact .unread _
    | some getter =>
      cases howner : s.ownerOf m with
      | none =>
        simp only [howner] at h
        cases h
        exact .unread _
      | some owner =>
        simp only [howner] at h
        rcases failed_of_then_failed h with hcall | ⟨returned, u, -, hconvert⟩
        · obtain ⟨failure, rfl, hfailed⟩ := failed_of_mapFailure_failed hcall
          refine .of_report (.native (.getCode hkind howner) hfailed) (report_of_not_scripted ?_)
          simp only [isScripted, member, hkind]
        · split at hconvert
          · obtain ⟨fault, rfl, -⟩ := failed_of_convertFor hconvert
            exact .returned fault
          · cases hconvert
  | script getter setter policy =>
    simp only [hkind] at h
    cases getter with
    | none =>
      cases h
      exact .unread _
    | some getter =>
      obtain ⟨fault, rfl, hfailed⟩ := failed_of_mapFailure_failed h
      refine .of_report (.script (.getScript hkind) hfailed) (report_of_scripted ?_ fault)
      simp only [isScripted, member, hkind]
  | adapted binding =>
    simp only [hkind] at h
    split at h
    · cases h
      exact .unread _
    next hallowed =>
      split at h
      · cases h
      next failure hget =>
        cases h
        refine .of_report (.get hkind (by simpa using hallowed) hget) (report_of_not_scripted ?_)
        simp only [isScripted, member, hkind]
  | dynamic =>
    simp only [hkind] at h
    cases h
    exact .unknown _
  | _ =>
    simp only [hkind] at h
    cases h

/-! ### Writing -/

theorem failed_of_askAdapter {binding : Binding} {wrap : Failure → MemberError}
    {request : Store → AdapterState → Except Failure AdapterState}
    (h : (Member.askAdapter binding wrap request).run.run s = (.error error, t)) :
    ∃ failure, error = wrap failure ∧ request s (s.adapterState binding) = .error failure ∧
      t = s := by
  rw [Member.askAdapter, run_read_then] at h
  split at h
  · cases h
  next failure hfailed =>
    cases h
    exact ⟨failure, rfl, hfailed, rfl⟩

theorem fails_of_setter {getter : Option CodeReference} {setter : CodeReference} {owner : ObjectId}
    {accepted : Value} (hkind : m.kind = .code getter (some setter))
    (howner : s.ownerOf m = some owner)
    (haccept : setter.accept (s.text env.adapter) v = .ok accepted)
    (h : ((setter.call env owner [accepted]).mapFailure (.setValueInvocation m.name) >>=
      fun _ => pure PUnit.unit).run.run s = (.error error, t)) :
    (setValue m v).Fails env s error t := by
  rcases failed_of_then_failed h with hcall | ⟨returned, u, -, hdone⟩
  · obtain ⟨failure, rfl, hfailed⟩ := failed_of_mapFailure_failed hcall
    refine .of_report (.native (.setCode hkind howner haccept) hfailed) (report_of_not_scripted ?_)
    simp only [isScripted, member, hkind]
  · cases hdone

theorem fails_of_setValueItself
    (h : (m.setValueItself env v).run.run s = (.error error, t)) :
    (setValue m v).Fails env s error t := by
  rw [Member.setValueItself, run_read_then] at h
  cases hkind : m.kind with
  | code getter setter =>
    simp only [hkind] at h
    cases setter with
    | none =>
      cases h
      exact .unwritten _
    | some setter =>
      cases howner : s.ownerOf m with
      | none =>
        simp only [howner] at h
        cases h
        exact .unwritten _
      | some owner =>
        simp only [howner] at h
        split at h
        next type hparam =>
          rcases failed_of_then_failed h with hconvert | ⟨accepted, u, hconvert, hcall⟩
          · obtain ⟨fault, rfl, rfl⟩ := failed_of_convertFor hconvert
            exact .refused fault
          · obtain ⟨haccept, rfl⟩ := ok_of_convertFor hconvert
            refine fails_of_setter hkind howner ?_ hcall
            rw [CodeReference.accept, hparam]
            exact haccept
        next hparam =>
          refine fails_of_setter hkind howner ?_ h
          unfold CodeReference.accept
          split
          next type htype => exact absurd htype (hparam type)
          next => rfl
  | note cell =>
    simp only [hkind] at h
    split at h
    · cases h
    · cases h
      exact .unwritten _
  | captured cell =>
    simp only [hkind] at h
    cases h
  | slot target =>
    simp only [hkind] at h
    cases hwritable : target.isWritable with
    | true =>
      have hwrite : (writeVariable target v).run s = (true, s.setCell target.cell v) := by
        simp only [writeVariable, hwritable]
        rfl
      simp only [run_lift_then, hwrite] at h
      cases h
    | false =>
      have hwrite : (writeVariable target v).run s = (false, s) := by
        simp only [writeVariable, hwritable]
        rfl
      simp only [run_lift_then, hwrite] at h
      cases h
      exact .unwritten _
  | script getter setter policy =>
    simp only [hkind] at h
    cases setter with
    | none =>
      cases h
      exact .unwritten _
    | some setter =>
      rcases failed_of_then_failed h with hcall | ⟨returned, u, -, hdone⟩
      · obtain ⟨fault, rfl, hfailed⟩ := failed_of_mapFailure_failed hcall
        refine .of_report (.script (.setScript hkind) hfailed) (report_of_scripted ?_ fault)
        simp only [isScripted, member, hkind]
      · cases hdone
  | adapted binding =>
    simp only [hkind] at h
    split at h
    · cases h
      exact .unwritten _
    next hallowed =>
      obtain ⟨failure, rfl, hset, rfl⟩ := failed_of_askAdapter h
      refine .of_report (.set hkind (by simpa using hallowed) hset) (report_of_not_scripted ?_)
      simp only [isScripted, member, hkind]
  | _ =>
    simp only [hkind] at h
    cases h
    exact .fixed _

/-! ### Calling -/

theorem fails_of_invoke (h : (m.invoke env args).run.run s = (.error error, t)) :
    (invoke m args).Fails env s error t := by
  rw [Member.invoke, Member.invokeWith, run_read_then] at h
  cases hkind : m.kind with
  | method binding =>
    simp only [hkind] at h
    split at h
    · cases h
    next failure hinvoke =>
      cases h
      refine .of_report (.method hkind hinvoke) ?_
      rw [report_of_not_scripted (by simp only [isScripted, member, hkind])]
      simp only [wrap, hkind]
  | codeMethod code =>
    simp only [hkind] at h
    have hmethod : m.kind.IsMethod := by simp only [hkind, MemberKind.IsMethod]
    have hwrap : (invoke m args).wrap = .methodInvocation m.name := by simp only [wrap, hkind]
    rw [Member.invokeCode, run_read_then] at h
    cases howner : s.ownerOf m with
    | none =>
      simp only [howner] at h
      cases h
      rw [← hwrap]
      exact .uncalled (.detached hkind howner)
    | some owner =>
      simp only [howner] at h
      split at h
      next hcount =>
        cases h
        rw [← hwrap]
        exact .uncalled (.arity hkind hcount)
      next hcount =>
        split at h
        next fault hargs =>
          cases h
          rw [← hwrap]
          exact .uncalled (.conversion hkind hargs)
        next converted hargs =>
          rcases failed_of_then_failed h with hcall | ⟨returned, u, -, hconvert⟩
          · obtain ⟨failure, rfl, hfailed⟩ := failed_of_mapFailure_failed hcall
            refine .of_report
              (.native (.invokeCode hkind howner (not_not.mp hcount) hargs) hfailed) ?_
            rw [report_of_not_scripted (by simp only [isScripted, member, hkind]), hwrap]
          · split at hconvert
            · obtain ⟨fault, rfl, -⟩ := failed_of_convertFor hconvert
              exact .answered hmethod fault
            · cases hconvert
  | scriptMethod script policy =>
    simp only [hkind] at h
    obtain ⟨fault, rfl, hfailed⟩ := failed_of_mapFailure_failed h
    refine .of_report (.script (.invokeScript hkind) hfailed) ?_
    rw [report_of_scripted (by simp only [isScripted, member, hkind])]
    simp only [wrap, hkind]
  | parameterized binding =>
    simp only [hkind] at h
    split at h
    · cases h
    next failure hindexed =>
      cases h
      refine .of_report (.index hkind hindexed) ?_
      rw [report_of_not_scripted (by simp only [isScripted, member, hkind])]
      simp only [wrap, hkind]
  | _ =>
    simp only [hkind] at h
    cases h
    exact .misused (by simp [hkind, MemberKind.IsMethod]) (by simp [hkind, MemberKind.IsIndexed]) _

/-! ### All accesses -/

/-- Whatever goes wrong in an access of a member that is no alias is one of these failures. -/
theorem fails_of_run (hlast : access.member.reference? = none)
    (h : (access.run env).run.run s = (.error error, t)) : access.Fails env s error t := by
  cases access with
  | value m =>
    have hm : m.reference? = none := hlast
    rw [run, Member.value_of_reference?_eq_none hm] at h
    exact fails_of_valueItself h
  | setValue m v =>
    have hm : m.reference? = none := hlast
    rw [run, Member.setValue_of_reference?_eq_none hm] at h
    rcases failed_of_then_failed h with hset | ⟨_, _, -, hdone⟩
    · exact fails_of_setValueItself hset
    · cases hdone
  | invoke m args => exact fails_of_invoke h

end

/-! ## What a failure says -/

/-- What takes arguments and runs code is a method or an indexed property, and a method if the code
is a script. -/
theorem Breaks.isMethod {m : Member} {args : List Value}
    (h : (invoke m args).Breaks env s failure t) :
    m.kind.IsMethod ∧ ¬ m.kind.IsIndexed ∨
      m.kind.IsIndexed ∧ (invoke m args).isScripted = false := by
  cases h with
  | native hcall | script hcall =>
    cases hcall with
    | _ hkind => exact .inl (by simp [hkind, MemberKind.IsMethod, MemberKind.IsIndexed])
  | method hkind => exact .inl (by simp [hkind, MemberKind.IsMethod, MemberKind.IsIndexed])
  | index hkind => exact .inr (by simp [hkind, MemberKind.IsIndexed, isScripted, member])

theorem report_cases (access : Access) (failure : Failure) :
    access.report failure = access.wrap failure ∨
      access.report failure = .terminated ∧ access.isScripted = true ∧
        failure = .script .terminate := by
  unfold report
  split
  next hscripted => exact .inr ⟨rfl, hscripted, rfl⟩
  next => exact .inl rfl

theorem wrap_of_not_indexed {m : Member} {args : List Value} (h : ¬ m.kind.IsIndexed) :
    (invoke m args).wrap = .methodInvocation m.name := by
  rw [wrap]
  split
  next hkind => exact absurd (by simp [hkind, MemberKind.IsIndexed]) h
  next => rfl

theorem wrap_of_indexed {m : Member} {args : List Value} (h : m.kind.IsIndexed) :
    (invoke m args).wrap = .getValueInvocation m.name := by
  rw [wrap]
  split
  next => rfl
  next hother =>
    unfold MemberKind.IsIndexed at h
    split at h
    next binding hkind => exact absurd hkind (hother binding)
    next => exact h.elim

theorem Fails.reports (h : access.Fails env s error t) : access.Reports error := by
  cases h with
  | unread | unwritten | unknown | fixed | returned | refused => rfl
  | misused hmethod hindexed misuse => exact ⟨hmethod, hindexed, rfl⟩
  | answered hmethod => exact ⟨hmethod, rfl⟩
  | uncalled h =>
    cases h with
    | detached hkind | arity hkind | conversion hkind =>
      rw [wrap_of_not_indexed (by simp [hkind, MemberKind.IsIndexed])]
      exact ⟨by simp only [hkind, MemberKind.IsMethod], rfl⟩
  | @broken access failure t h =>
    cases access with
    | value m | setValue m v =>
      rcases report_cases _ failure with hreport | ⟨hreport, -, -⟩ <;> rw [hreport]
      · rfl
      · trivial
    | invoke m args =>
      rcases h.isMethod with ⟨hmethod, hindexed⟩ | ⟨hindexed, hscripted⟩
      · rcases report_cases _ failure with hreport | ⟨hreport, -, -⟩ <;> rw [hreport]
        · rw [wrap_of_not_indexed hindexed]
          exact ⟨hmethod, rfl⟩
        · exact hmethod
      · rw [report_of_not_scripted hscripted, wrap_of_indexed hindexed]
        exact ⟨hindexed, rfl⟩

theorem source?_wrap (access : Access) (failure : Failure) :
    (access.wrap failure).source? = some failure := by
  cases access with
  | value | setValue => rfl
  | invoke m args =>
    by_cases hindexed : m.kind.IsIndexed
    · rw [wrap_of_indexed hindexed]
      rfl
    · rw [wrap_of_not_indexed hindexed]
      rfl

/-- What is wrapped is what the code failed with, or why a native method was not called. -/
theorem Fails.breaks_or_uncalled {source : Failure} (h : access.Fails env s error t)
    (hsource : error.source? = some source) :
    access.Breaks env s source t ∨ access.Uncalled env s source := by
  cases h with
  | unread | unwritten | unknown | fixed | returned | refused | misused | answered => cases hsource
  | uncalled h =>
    rw [source?_wrap, Option.some.injEq] at hsource
    exact .inr (hsource ▸ h)
  | @broken access failure t h =>
    rcases report_cases access failure with hreport | ⟨hreport, -, -⟩
    · rw [hreport, source?_wrap, Option.some.injEq] at hsource
      exact .inl (hsource ▸ h)
    · rw [hreport] at hsource
      cases hsource

/-- Nothing but a script that was torn down is reported as termination. -/
theorem Fails.terminate (h : access.Fails env s .terminated t) :
    access.isScripted = true ∧ access.Breaks env s (.script .terminate) t := by
  generalize herror : MemberError.terminated = error at h
  cases h with
  | unread | unwritten | unknown | fixed | returned | refused | misused | answered => cases herror
  | @uncalled access failure h =>
    have hsource := source?_wrap access failure
    rw [← herror] at hsource
    cases hsource
  | @broken access failure t h =>
    rcases report_cases access failure with hreport | ⟨-, hscripted, rfl⟩
    · have hsource := source?_wrap access failure
      rw [← hreport, ← herror] at hsource
      cases hsource
    · exact ⟨hscripted, h⟩

end Access

end DynamicMembers
