import DynamicMembers.Proofs.Access.Failures

/-! # Classes of failures

Every failure of an access tells what could not be done and which member is to blame. That is read
off the ways to fail (`Access.Fails`); the other way round, whatever the code of others fails with
reaches the caller, wrapped once (`Access.classifiesFailures`).

An alias that is read or written fails as what it leads to, or with a failure of its own. To call it
is a misuse like calling any property, whatever it leads to (`Access.misused_of_alias`).
-/
namespace DynamicMembers
open Store

/-- The failures of an alias of the name that leads to no member. -/
inductive MemberError.OfAlias (name : String) : MemberError → Prop
  | cycle (chain : List String) : OfAlias name (.aliasCycle name chain)
  | missing (target : String) : OfAlias name (.aliasTargetMissing name target)
  | outside : OfAlias name (.aliasOutsideContainer name)

namespace Access

variable {env : Environment} {s t : Store} {access : Access} {failure : Failure}
  {error : MemberError}

/-! ## The code of others -/

theorem Direct.wrap_eq {call : Call} (h : Direct env s access call) : call.wrap = access.wrap := by
  cases h with
  | getCode | getScript | setCode | setScript => rfl
  | invokeCode hkind | invokeScript hkind =>
    funext failure
    simp only [Call.wrap, wrap, hkind]

theorem Direct.isScripted_eq {call : Call} (h : Direct env s access call) :
    access.isScripted = !call.isNative := by
  cases h with
  | getCode hkind | getScript hkind | setCode hkind | setScript hkind | invokeCode hkind
  | invokeScript hkind =>
    simp only [isScripted, member, hkind, Call.isNative]
    rfl

theorem run_of_breaks (h : access.Breaks env s failure t) :
    (access.run env).run.run s = (.error (access.report failure), t) := by
  cases h with
  | @native access name purpose code owner args failure t hcall h =>
    rw [report_of_not_scripted hcall.isScripted_eq, ← hcall.wrap_eq]
    refine (Makes.direct hcall).fails ?_
    rw [Call.run, run_mapFailure, h]
    rfl
  | @script access name purpose i owner args policy fault t hcall h =>
    rw [report_of_scripted hcall.isScripted_eq, ← hcall.wrap_eq]
    refine (Makes.direct hcall).fails ?_
    rw [Call.run, run_mapFailure, h]
    rfl
  | get hkind hallowed h =>
    rw [report_of_not_scripted (by simp only [isScripted, member, hkind]), run, Member.value]
    simp only [hkind]
    rw [Member.valueItself, run_read_then]
    simp only [hkind, hallowed, h, Bool.not_true, Bool.false_eq_true, if_false]
    rfl
  | set hkind hallowed h =>
    rw [report_of_not_scripted (by simp only [isScripted, member, hkind]), run, Member.setValue]
    simp only [hkind]
    refine run_then_of_error ?_
    rw [Member.setValueItself, run_read_then]
    simp only [hkind, hallowed, Bool.not_true, Bool.false_eq_true, if_false]
    rw [Member.askAdapter, run_read_then]
    simp only [h]
    rfl
  | method hkind h =>
    rw [report_of_not_scripted (by simp only [isScripted, member, hkind]), run, Member.invoke,
      Member.invokeWith, run_read_then]
    simp only [wrap, hkind, h]
    rfl
  | index hkind h =>
    rw [report_of_not_scripted (by simp only [isScripted, member, hkind]), run, Member.invoke,
      Member.invokeWith, run_read_then]
    simp only [wrap, hkind, h]
    rfl

/-! ## Aliases -/

theorem ofAlias_of_follow {adapter : Adapter} {o : ObjectId} {name reference : String} {steps : Nat}
    {passed : List String} (h : s.follow adapter o name steps passed reference = .error error) :
    error.OfAlias name := by
  induction steps generalizing passed reference with
  | zero =>
    cases h
    exact .cycle _
  | succ steps ih =>
    rw [follow] at h
    split at h
    · cases h
      exact .cycle _
    · split at h
      · cases h
        exact .missing _
      · split at h
        · exact ih h
        · cases h

theorem ofAlias_of_resolve {adapter : Adapter} {m : Member} {reference : String}
    (h : (m.resolve adapter reference).run.run s = (.error error, t)) :
    error.OfAlias m.name ∧ t = s := by
  rcases m.resolve_cases adapter s reference with ⟨failure, htarget, hrun⟩ | ⟨o, x, -, hrun⟩
  · cases h.symm.trans hrun
    refine ⟨?_, rfl⟩
    cases howner : s.ownerOf m with
    | none =>
      rw [aliasTarget, howner] at htarget
      cases htarget
      exact .outside
    | some o =>
      rw [aliasTarget_of_owner howner] at htarget
      cases hfollow : s.follow adapter o m.name (((View.ofObject o).union adapter s).length + 2)
          [m.name] reference with
      | ok y =>
        rw [hfollow] at htarget
        cases htarget
      | error failure =>
        rw [hfollow] at htarget
        cases htarget
        exact ofAlias_of_follow hfollow
  · cases h.symm.trans hrun

theorem reference?_of_resolve {adapter : Adapter} {m target : Member} {reference : String}
    (h : (m.resolve adapter reference).run.run s = (.ok target, t)) : target.reference? = none := by
  rcases m.resolve_cases adapter s reference with ⟨failure, -, hrun⟩ | ⟨o, x, htarget, hrun⟩
  · cases h.symm.trans hrun
  · cases h.symm.trans hrun
    unfold aliasTarget at htarget
    split at htarget
    · cases htarget
    · obtain ⟨y, hfollow, hy⟩ := exists_of_bind_eq_ok htarget
      cases hy
      obtain ⟨_, _, _, hlast⟩ := leadsTo_of_follow hfollow
      rwa [View.reference?_handOut]

/-- How an access of an alias fails: on the way to its target, as the target does, by its own
conversion, or because aliases are not called. -/
inductive FailsAsAlias (env : Environment) (s : Store) (m : Member) (reference : String) :
    Access → MemberError → Store → Prop
  | lostReading {error : MemberError} (h : error.OfAlias m.name) :
      FailsAsAlias env s m reference (value m) error s
  | lostWriting {v : Value} {error : MemberError} (h : error.OfAlias m.name) :
      FailsAsAlias env s m reference (setValue m v) error s
  | reading {target : Member} {error : MemberError} {t u : Store}
      (hresolve : (m.resolve env.adapter reference).run.run s = (.ok target, t))
      (hlast : target.reference? = none)
      (h : ((value target).run env).run.run t = (.error error, u)) :
      FailsAsAlias env s m reference (value m) error u
  | writing {target : Member} {v : Value} {error : MemberError} {t u : Store}
      (hresolve : (m.resolve env.adapter reference).run.run s = (.ok target, t))
      (hlast : target.reference? = none)
      (h : ((setValue target v).run env).run.run t = (.error error, u)) :
      FailsAsAlias env s m reference (setValue m v) error u
  | converting {type : ValueType} {t : Store} (hkind : m.kind = .aliasOf reference (some type))
      (fault : ConversionError) :
      FailsAsAlias env s m reference (value m) (.conversion m.name fault) t
  | calling {args : List Value} : FailsAsAlias env s m reference (invoke m args)
      (.invalidOperation m.name (.notInvocable .aliasProperty)) s

theorem failsAsAlias_of_run {reference : String} {conversion : Option ValueType}
    (hkind : access.member.kind = .aliasOf reference conversion)
    (h : (access.run env).run.run s = (.error error, t)) :
    access.FailsAsAlias env s access.member reference error t := by
  cases access with
  | value m =>
    have hm : m.kind = .aliasOf reference conversion := hkind
    rw [run, Member.value] at h
    simp only [hm] at h
    rcases failed_of_then_failed h with hlost | ⟨target, u, hresolve, hrest⟩
    · obtain ⟨hforms, rfl⟩ := ofAlias_of_resolve hlost
      exact .lostReading hforms
    · rcases failed_of_then_failed hrest with hread | ⟨v, w, -, hconvert⟩
      · have hlast := reference?_of_resolve hresolve
        refine .reading hresolve hlast ?_
        rw [run, Member.value_of_reference?_eq_none hlast]
        exact hread
      · split at hconvert
        · obtain ⟨fault, rfl, -⟩ := failed_of_convertFor hconvert
          exact .converting hm fault
        · cases hconvert
  | setValue m v =>
    have hm : m.kind = .aliasOf reference conversion := hkind
    rw [run, Member.setValue] at h
    simp only [hm] at h
    rcases failed_of_then_failed h with hset | ⟨_, _, -, hdone⟩
    · rcases failed_of_then_failed hset with hlost | ⟨target, u, hresolve, hwrite⟩
      · obtain ⟨hforms, rfl⟩ := ofAlias_of_resolve hlost
        exact .lostWriting hforms
      · have hlast := reference?_of_resolve hresolve
        refine .writing hresolve hlast ?_
        rw [run, Member.setValue_of_reference?_eq_none hlast]
        exact run_then_of_error hwrite
    · cases hdone
  | invoke m args =>
    have hm : m.kind = .aliasOf reference conversion := hkind
    rw [run, Member.invoke, Member.invokeWith, run_read_then] at h
    simp only [hm, Member.type, MemberKind.type] at h
    cases h
    exact .calling

/-! ## The classification -/

/-- A failure of a member that is no alias is of the kind of the operation and has the name of the
member; its source is the failure of the code that was run, or why a native method was not called,
and a failure of the code that is run is reported, wrapped once. Termination is only of scripts. An
alias fails as what it leads to, or with a failure that has its own name. -/
theorem classifiesFailures (env : Environment) (s : Store) (access : Access) :
    (access.member.reference? = none →
      (∀ error t, (access.run env).run.run s = (.error error, t) →
        access.Reports error ∧
        (∀ source, error.source? = some source →
          access.Breaks env s source t ∨ access.Uncalled env s source) ∧
        (error = .terminated →
          access.isScripted = true ∧ access.Breaks env s (.script .terminate) t)) ∧
      ∀ failure t, access.Breaks env s failure t →
        (access.run env).run.run s = (.error (access.report failure), t)) ∧
    ∀ reference conversion, access.member.kind = .aliasOf reference conversion →
      ∀ error t, (access.run env).run.run s = (.error error, t) →
        access.FailsAsAlias env s access.member reference error t := by
  refine ⟨fun hlast => ⟨fun error t hrun => ?_, fun failure t => run_of_breaks⟩,
    fun reference conversion hkind error t => failsAsAlias_of_run hkind⟩
  have hfails := fails_of_run hlast hrun
  refine ⟨hfails.reports, fun source => hfails.breaks_or_uncalled, ?_⟩
  rintro rfl
  exact hfails.terminate

def failing : Member :=
  ⟨.made 0, "Fail", .initial, some ⟨0⟩, .codeMethod ⟨"fail", [.owner], none, .hosted "fail:boom"⟩⟩

def deadLink : Member := ⟨.made 1, "Link", .initial, some ⟨0⟩, .aliasOf "Size" none⟩

theorem classifiesFailures_failing :
    (failing.reference? = none ∧
      (invoke failing []).Breaks (CommandHost.bare.environment 1) boxed (.text "boom") boxed ∧
      ((invoke failing []).run (CommandHost.bare.environment 1)).run.run boxed =
        (.error (.methodInvocation "Fail" (.text "boom")), boxed)) ∧
    deadLink.kind = .aliasOf "Size" none ∧
      ((value deadLink).run (CommandHost.bare.environment 1)).run.run boxed =
        (.error (.aliasTargetMissing "Link" "Size"), boxed) ∧
      (value deadLink).FailsAsAlias (CommandHost.bare.environment 1) boxed deadLink "Size"
        (.aliasTargetMissing "Link" "Size") boxed := by
  have hbreaks : (invoke failing []).Breaks (CommandHost.bare.environment 1) boxed
      (.text "boom") boxed :=
    .native (.invokeCode rfl rfl rfl rfl) rfl
  have hlost : ((value deadLink).run (CommandHost.bare.environment 1)).run.run boxed =
      (.error (.aliasTargetMissing "Link" "Size"), boxed) := rfl
  obtain ⟨hdirect, -⟩ := classifiesFailures (CommandHost.bare.environment 1) boxed
    (invoke failing [])
  obtain ⟨-, halias⟩ := classifiesFailures (CommandHost.bare.environment 1) boxed (value deadLink)
  exact ⟨⟨rfl, hbreaks, (hdirect rfl).2 _ _ hbreaks⟩, rfl, hlost, halias _ _ rfl _ _ hlost⟩

def sizeNote : Member := ⟨.made 0, "Size", .initial, some ⟨0⟩, .note ⟨1⟩⟩

def noted : Store :=
  (boxed.after (addCell (.int 1))).after (addToList ⟨0⟩ sizeNote true).run

/-- An alias is not called for what it leads to: it reports its own misuse. -/
theorem misused_of_alias :
    ((deadLink.resolve .bag "Size").run.run noted).1 = .ok sizeNote ∧
      (((invoke deadLink []).run (CommandHost.bare.environment 1)).run.run noted).1 =
        .error (.invalidOperation "Link" (.notInvocable .aliasProperty)) ∧
      (((invoke sizeNote []).run (CommandHost.bare.environment 1)).run.run noted).1 =
        .error (.invalidOperation "Size" (.notInvocable .noteProperty)) ∧
      ¬ (MemberError.invalidOperation "Link" (.notInvocable .aliasProperty)).OfAlias "Link" :=
  ⟨rfl, rfl, rfl, nofun⟩

end Access

end DynamicMembers
