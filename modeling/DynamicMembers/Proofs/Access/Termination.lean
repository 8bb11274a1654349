import DynamicMembers.Proofs.Script.Runs

/-! # Termination on its way up

A debugger tears a script down by having the engine report termination. What the script
was run for fails, and so does what that was run for, up to the access that began it all.
If every callable and script on the way hands on the failure that it met, the failure is
wrapped by the members only: a member that runs a script passes termination on as it is,
a member that runs a native callable wraps it like any other failure.

So termination reaches the caller if scripts alone are on the way, and else the caller
is told of a failed call (`Access.reportsTermination`).
-/
namespace DynamicMembers
open Store

/-! ## Accesses and the calls they make -/

/-- What can be done with a member that may run code. -/
inductive Access
  | value (m : Member)
  | setValue (m : Member) (v : Value)
  | invoke (m : Member) (args : List Value)

def Access.run (env : Environment) : Access → Run MemberError Value
  | value m => m.value env
  | setValue m v => do
    m.setValue env v
    return .null
  | invoke m args => m.invoke env args

/-- What a member runs. -/
inductive Callee
  | native (code : CodeReference) (owner : ObjectId) (args : List Value)
  | script (i : ScriptId) (owner : Option ObjectId) (args : List Value) (policy : RunPolicy)

/-- What a member runs something for. -/
inductive Purpose
  | get
  | set
  | invoke

/-- A member of this name runs something. -/
structure Call where
  name : String
  purpose : Purpose
  callee : Callee

namespace Call

def isNative (call : Call) : Bool :=
  match call.callee with
  | .native .. => true
  | .script .. => false

def wrap (call : Call) : Failure → MemberError :=
  match call.purpose with
  | .get => .getValueInvocation call.name
  | .set => .setValueInvocation call.name
  | .invoke => .methodInvocation call.name

/-- What the member makes of a failure of the host. -/
def ofFailure (call : Call) (failure : Failure) : MemberError :=
  match call.callee with
  | .native .. => call.wrap failure
  | .script .. => (ScriptError.ofFailure failure).toMemberError call.wrap

def run (env : Environment) (call : Call) : Run MemberError Value :=
  match call.callee with
  | .native code owner args => (code.call env owner args).mapFailure call.wrap
  | .script i owner args policy =>
    (i.run env owner args policy).mapFailure (ScriptError.toMemberError call.wrap)

end Call

/-- What a setter takes for a value. -/
def CodeReference.accept (write : Value → String) (setter : CodeReference) (v : Value) :
    Except ConversionError Value :=
  match setter.valueParams.head? with
  | some (.value type) => v.convertTo write type
  | _ => .ok v

/-- The access of a member that is no alias comes to this call. -/
inductive Access.Direct (env : Environment) (s : Store) : Access → Call → Prop
  | getCode {m : Member} {getter : CodeReference} {setter : Option CodeReference} {owner : ObjectId}
      (hkind : m.kind = .code (some getter) setter) (howner : s.ownerOf m = some owner) :
      Direct env s (.value m) ⟨m.name, .get, .native getter owner []⟩
  | getScript {m : Member} {getter : ScriptId} {setter : Option ScriptId} {policy : RunPolicy}
      (hkind : m.kind = .script (some getter) setter policy) :
      Direct env s (.value m) ⟨m.name, .get, .script getter (s.ownerOf m) [] policy⟩
  | setCode {m : Member} {getter : Option CodeReference} {setter : CodeReference}
      {owner : ObjectId} {v accepted : Value}
      (hkind : m.kind = .code getter (some setter)) (howner : s.ownerOf m = some owner)
      (haccept : setter.accept (s.text env.adapter) v = .ok accepted) :
      Direct env s (.setValue m v) ⟨m.name, .set, .native setter owner [accepted]⟩
  | setScript {m : Member} {getter : Option ScriptId} {setter : ScriptId} {policy : RunPolicy}
      {v : Value} (hkind : m.kind = .script getter (some setter) policy) :
      Direct env s (.setValue m v) ⟨m.name, .set, .script setter (s.ownerOf m) [v] policy⟩
  | invokeCode {m : Member} {code : CodeReference} {owner : ObjectId} {args converted : List Value}
      (hkind : m.kind = .codeMethod code) (howner : s.ownerOf m = some owner)
      (hcount : args.length = code.params.length - 1)
      (hargs : CodeReference.convertArgs (s.text env.adapter) code.valueParams args =
        .ok converted) :
      Direct env s (.invoke m args) ⟨m.name, .invoke, .native code owner converted⟩
  | invokeScript {m : Member} {script : ScriptId} {policy : RunPolicy} {args : List Value}
      (hkind : m.kind = .scriptMethod script policy) :
      Direct env s (.invoke m args) ⟨m.name, .invoke, .script script (s.ownerOf m) args policy⟩

/-- The access comes to this call, with this store. An alias has the member that it leads to make
the call. -/
inductive Access.Makes (env : Environment) (s : Store) : Access → Call → Store → Prop
  | direct {access : Access} {call : Call} (h : Direct env s access call) :
      Makes env s access call s
  | getAlias {m target : Member} {reference : String} {conversion : Option ValueType} {t : Store}
      {call : Call} (hkind : m.kind = .aliasOf reference conversion)
      (hresolve : (m.resolve env.adapter reference).run.run s = (.ok target, t))
      (h : Direct env t (.value target) call) : Makes env s (.value m) call t
  | setAlias {m target : Member} {reference : String} {conversion : Option ValueType} {t : Store}
      {v : Value} {call : Call} (hkind : m.kind = .aliasOf reference conversion)
      (hresolve : (m.resolve env.adapter reference).run.run s = (.ok target, t))
      (h : Direct env t (.setValue target v) call) : Makes env s (.setValue m v) call t

namespace Access

variable {env : Environment} {s t u : Store} {access : Access} {call : Call} {failure : MemberError}

theorem Direct.valueItself {m : Member} (h : Direct env s (.value m) call)
    (hcall : (call.run env).run.run s = (.error failure, t)) :
    (m.valueItself env).run.run s = (.error failure, t) := by
  cases h with
  | getCode hkind howner =>
    rw [Member.valueItself, run_read_then]
    simp only [hkind, howner]
    exact run_then_of_error hcall
  | getScript hkind =>
    rw [Member.valueItself, run_read_then]
    simp only [hkind]
    exact hcall

theorem Direct.setValueItself {m : Member} {v : Value} (h : Direct env s (.setValue m v) call)
    (hcall : (call.run env).run.run s = (.error failure, t)) :
    (m.setValueItself env v).run.run s = (.error failure, t) := by
  cases h with
  | @setCode _ getter setter _ _ accepted hkind howner haccept =>
    rw [Member.setValueItself, run_read_then]
    unfold CodeReference.accept at haccept
    split at haccept
    next type hparam =>
      have hconvert : (convertFor env m type v).run.run s = (.ok accepted, s) := by
        rw [convertFor, run_read_then, haccept]
        rfl
      simp only [hkind, howner, hparam]
      refine (run_then_of_ok hconvert).trans ?_
      exact run_then_of_error hcall
    next hparam =>
      cases haccept
      simp only [hkind, howner, pure_bind]
      exact run_then_of_error hcall
  | setScript hkind =>
    rw [Member.setValueItself, run_read_then]
    simp only [hkind]
    exact run_then_of_error hcall

theorem Direct.invokes {m : Member} {args : List Value} (h : Direct env s (.invoke m args) call)
    (hcall : (call.run env).run.run s = (.error failure, t)) :
    (m.invoke env args).run.run s = (.error failure, t) := by
  cases h with
  | invokeCode hkind howner hcount hargs =>
    rw [Member.invoke, Member.invokeWith, run_read_then]
    simp only [hkind]
    rw [Member.invokeCode, run_read_then]
    simp only [howner, hcount, hargs, ne_eq, not_true_eq_false, if_false]
    exact run_then_of_error hcall
  | invokeScript hkind =>
    rw [Member.invoke, Member.invokeWith, run_read_then]
    simp only [hkind]
    exact hcall

theorem Direct.value {m : Member} (h : Direct env s (.value m) call) :
    m.value env = m.valueItself env := by
  cases h with
  | getCode hkind | getScript hkind => simp only [Member.value, hkind]

theorem Direct.setValue {m : Member} {v : Value} (h : Direct env s (.setValue m v) call) :
    m.setValue env v = m.setValueItself env v := by
  cases h with
  | setCode hkind | setScript hkind => simp only [Member.setValue, hkind]

theorem Makes.fails (h : Makes env s access call t)
    (hcall : (call.run env).run.run t = (.error failure, u)) :
    (access.run env).run.run s = (.error failure, u) := by
  cases h with
  | direct h =>
    cases access with
    | value m =>
      rw [Access.run, h.value]
      exact h.valueItself hcall
    | setValue m v =>
      rw [Access.run, h.setValue]
      exact run_then_of_error (h.setValueItself hcall)
    | invoke m args => exact h.invokes hcall
  | getAlias hkind hresolve h =>
    rw [Access.run, Member.value]
    simp only [hkind]
    exact (run_then_of_ok hresolve).trans (run_then_of_error (h.valueItself hcall))
  | setAlias hkind hresolve h =>
    rw [Access.run, Member.setValue]
    simp only [hkind]
    refine run_then_of_error ((run_then_of_ok hresolve).trans ?_)
    exact h.setValueItself hcall

end Access

/-! ## What the host answers -/

/-- The outcome of the call of the host in a run of a script, if it comes to that. -/
def ScriptId.hostAnswer (env : Environment) (i : ScriptId) (owner : Option ObjectId)
    (args : List Value) (policy : RunPolicy) (s : Store) :
    Except ScriptError (Except Failure Value) :=
  match ((i.prepare env).run.run s).1 with
  | .error fault => .error fault
  | .ok (template, blocks) =>
    let (block, _, remaining) := blocks.checkOut template policy.onCopy
    .ok ((env.evaluate block.text ⟨owner, args, block.ran.runs, policy.mode⟩).run.run
      (s.begun i remaining policy.mode)).1

theorem ScriptId.outcome_run (env : Environment) (i : ScriptId) (owner : Option ObjectId)
    (args : List Value) (policy : RunPolicy) (s : Store) :
    ((i.run env owner args policy).run.run s).1 =
      match i.hostAnswer env owner args policy s with
      | .error fault => .error fault
      | .ok answer => answer.mapError .ofFailure := by
  rcases prepare_cases env i s with ⟨fault, -, -, hprepare⟩ |
    ⟨asked, template, blocks, -, hprepare⟩
  · rw [run, run_then_of_error hprepare, hostAnswer, hprepare]
  · obtain ⟨turn, remaining, hout⟩ : ∃ turn : Blocks.Turn Block, ∃ remaining,
        blocks.checkOut template policy.onCopy = (turn.block, turn.isShared, remaining) :=
      ⟨⟨_, _⟩, _, rfl⟩
    rw [run_of_prepared hprepare hout rfl, hostAnswer, hprepare]
    simp only [hout]
    rfl

namespace Call

variable {env : Environment} {s : Store} {call : Call}

/-- The answer of the host to the call. An engine may refuse to compile a script before that. -/
def hostAnswer (env : Environment) (call : Call) (s : Store) :
    Except ScriptError (Except Failure Value) :=
  match call.callee with
  | .native code owner args => .ok ((code.call env owner args).run.run s).1
  | .script i owner args policy => i.hostAnswer env owner args policy s

theorem outcome_run_of_failure {failure : Failure}
    (h : call.hostAnswer env s = .ok (.error failure)) :
    ((call.run env).run.run s).1 = .error (call.ofFailure failure) := by
  unfold run ofFailure
  unfold hostAnswer at h
  split at h
  · simp only [run_mapFailure, Except.ok.inj h]
    rfl
  · simp only [run_mapFailure, ScriptId.outcome_run, h]
    rfl

theorem outcome_run_of_refused {fault : ScriptError} (h : call.hostAnswer env s = .error fault) :
    ((call.run env).run.run s).1 = .error (call.ofFailure (.script fault)) := by
  unfold run ofFailure
  unfold hostAnswer at h
  split at h
  · cases h
  · simp only [run_mapFailure, ScriptId.outcome_run, h]
    rfl

end Call

/-! ## Termination passed on -/

/-- The host, asked to run what the call is about, fails with termination: an engine reports it at
once, or members were accessed in turn and the failure of such an access is passed on. The chain
has the calls on the way, outermost first. -/
inductive Interrupted : Environment → Store → Call → List Call → Prop
  | refused {env : Environment} {s : Store} {call : Call}
      (h : call.hostAnswer env s = .error .terminate) : Interrupted env s call [call]
  | reported {env : Environment} {s : Store} {call : Call}
      (h : call.hostAnswer env s = .ok (.error (.script .terminate))) :
      Interrupted env s call [call]
  | passedOn {env inner : Environment} {s t u : Store} {call next : Call} {access : Access}
      {failure : MemberError} {chain : List Call}
      (h : call.hostAnswer env s = .ok (.error (.member failure)))
      (hmakes : access.Makes inner t next u) (hinner : Interrupted inner u next chain)
      (hfailure : ((access.run inner).run.run t).1 = .error failure) :
      Interrupted env s call (call :: chain)

namespace Call

/-- What the calls of a chain make of termination, from the innermost to the outermost. -/
def passedUp : List Call → Failure
  | [] => .script .terminate
  | call :: rest => .member (call.ofFailure (passedUp rest))

def IsTermination (failure : Failure) : Prop :=
  failure = .script .terminate ∨ failure = .member .terminated

variable {call : Call}

theorem wrap_ne_terminated (call : Call) (failure : Failure) : call.wrap failure ≠ .terminated := by
  obtain ⟨name, purpose, callee⟩ := call
  cases purpose <;> simp [wrap]

theorem exists_wrap {failure : Failure} (h : call.ofFailure failure ≠ .terminated) :
    ∃ source, call.ofFailure failure = call.wrap source := by
  unfold ofFailure ScriptError.toMemberError at h ⊢
  split
  · exact ⟨failure, rfl⟩
  · split
    · simp_all
    · exact ⟨_, rfl⟩

theorem ofFailure_eq_terminate_iff (failure : Failure) :
    ScriptError.ofFailure failure = .terminate ↔ IsTermination failure := by
  unfold ScriptError.ofFailure IsTermination
  split <;> simp_all

theorem toMemberError_eq_terminated_iff (call : Call) (error : ScriptError) :
    error.toMemberError call.wrap = .terminated ↔ error = .terminate := by
  unfold ScriptError.toMemberError
  split
  · simp
  next hother => simpa [call.wrap_ne_terminated] using hother

theorem ofFailure_eq_terminated_iff (failure : Failure) :
    call.ofFailure failure = .terminated ↔ call.isNative = false ∧ IsTermination failure := by
  unfold ofFailure isNative
  split
  · simp [wrap_ne_terminated]
  · rw [toMemberError_eq_terminated_iff, ofFailure_eq_terminate_iff]
    simp

theorem isTermination_passedUp_iff (chain : List Call) :
    IsTermination (passedUp chain) ↔ ∀ call ∈ chain, call.isNative = false := by
  induction chain with
  | nil => simp [passedUp, IsTermination]
  | cons call rest ih =>
    have hfirst : IsTermination (passedUp (call :: rest)) ↔
        call.ofFailure (passedUp rest) = .terminated := by
      simp [passedUp, IsTermination]
    rw [hfirst, ofFailure_eq_terminated_iff, ih, List.forall_mem_cons]

end Call

theorem Interrupted.outcome {env : Environment} {s : Store} {call : Call} {chain : List Call}
    (h : Interrupted env s call chain) : ∃ rest, chain = call :: rest ∧
      ((call.run env).run.run s).1 = .error (call.ofFailure (Call.passedUp rest)) := by
  induction h with
  | refused h => exact ⟨[], rfl, Call.outcome_run_of_refused h⟩
  | reported h => exact ⟨[], rfl, Call.outcome_run_of_failure h⟩
  | @passedOn env inner s t u call next access failure chain h hmakes _ hfailure ih =>
    obtain ⟨rest, rfl, hnext⟩ := ih
    -- The failure that is passed on is the one that the inner access comes to.
    have hfails := congrArg Prod.fst (hmakes.fails (Prod.ext hnext rfl))
    rw [hfailure] at hfails
    obtain rfl : failure = next.ofFailure (Call.passedUp rest) := Except.error.inj hfails
    exact ⟨next :: rest, rfl, Call.outcome_run_of_failure h⟩

namespace Access

variable {env : Environment} {s t : Store} {access : Access} {call : Call} {chain : List Call}

/-- Termination that is passed on all the way up to an access becomes the failure that the calls
make of it one after another. The access fails with termination itself if no native callable is on
the way, and otherwise with a failure of the member, to get, to set or to invoke. -/
theorem reportsTermination (hmakes : access.Makes env s call t)
    (h : Interrupted env t call chain) :
    (∃ rest, chain = call :: rest ∧
      ((access.run env).run.run s).1 = .error (call.ofFailure (Call.passedUp rest))) ∧
    (((access.run env).run.run s).1 = .error .terminated ↔ ∀ call ∈ chain, call.isNative = false) ∧
    ((∃ native ∈ chain, native.isNative = true) → ∃ source,
      ((access.run env).run.run s).1 = .error (call.wrap source)) := by
  obtain ⟨rest, rfl, houtcome⟩ := h.outcome
  have hanswer : ((access.run env).run.run s).1 = .error (call.ofFailure (Call.passedUp rest)) :=
    congrArg Prod.fst (hmakes.fails (Prod.ext houtcome rfl))
  have hiff : ((access.run env).run.run s).1 = .error .terminated ↔
      ∀ other ∈ call :: rest, other.isNative = false := by
    rw [hanswer, Except.error.injEq, Call.ofFailure_eq_terminated_iff,
      Call.isTermination_passedUp_iff, List.forall_mem_cons]
  refine ⟨⟨rest, rfl, hanswer⟩, hiff, ?_⟩
  -- With a native callable on the way the answer is not termination, so it has been wrapped.
  rintro ⟨native, hnative, hisNative⟩
  have hne : call.ofFailure (Call.passedUp rest) ≠ .terminated := by
    intro heq
    have hscripts := hiff.mp (hanswer.trans (congrArg Except.error heq)) native hnative
    simp [hisNative] at hscripts
  obtain ⟨source, hsource⟩ := call.exists_wrap hne
  exact ⟨source, hanswer.trans (congrArg Except.error hsource)⟩

def stopping : Store :=
  (((Store.initial #[]).after (Store.wrapAs .null ["Box"])).after
    (Store.addScript "terminate")).after (Store.addScript "call:Stop") |>.after
    (Store.addToList ⟨0⟩ ⟨.made 0, "Stop", .initial, some ⟨0⟩,
      .scriptMethod ⟨0⟩ ⟨false, .propagate⟩⟩ true).run

def stop : Member := ⟨.made 0, "Stop", .initial, some ⟨0⟩, .scriptMethod ⟨0⟩ ⟨false, .propagate⟩⟩

def stopCall : Call := ⟨"Stop", .invoke, .script ⟨0⟩ (some ⟨0⟩) [] ⟨false, .propagate⟩⟩

def relay : Member := ⟨.made 1, "Relay", .initial, some ⟨0⟩, .scriptMethod ⟨1⟩ ⟨false, .propagate⟩⟩

def relayCall : Call := ⟨"Relay", .invoke, .script ⟨1⟩ (some ⟨0⟩) [] ⟨false, .propagate⟩⟩

def nativeRelay : Member :=
  ⟨.made 2, "Run", .initial, some ⟨0⟩, .codeMethod ⟨"run", [.owner], none, .hosted "call:Stop"⟩⟩

def nativeCall : Call :=
  ⟨"Run", .invoke, .native ⟨"run", [.owner], none, .hosted "call:Stop"⟩ ⟨0⟩ []⟩

theorem reportsTermination_relay :
    ((invoke relay []).Makes (CommandHost.bare.environment 2) stopping relayCall stopping ∧
      Interrupted (CommandHost.bare.environment 2) stopping relayCall [relayCall, stopCall]) ∧
    (((invoke relay []).run (CommandHost.bare.environment 2)).run.run stopping).1 =
      .error .terminated := by
  have hmakes : (invoke relay []).Makes (CommandHost.bare.environment 2) stopping relayCall
      stopping :=
    .direct (.invokeScript rfl)
  have hinner : (invoke stop []).Makes (CommandHost.bare.environment 1)
      (stopping.begun ⟨1⟩ ⟨some ⟨"call:Stop", 0⟩, none⟩ .propagate) stopCall _ :=
    .direct (.invokeScript rfl)
  have hchain : Interrupted (CommandHost.bare.environment 2) stopping relayCall
      [relayCall, stopCall] :=
    .passedOn rfl hinner (.reported rfl) rfl
  refine ⟨⟨hmakes, hchain⟩, ?_⟩
  obtain ⟨-, hiff, -⟩ := reportsTermination hmakes hchain
  exact hiff.mpr (by decide)

/-- The native method passes on that the script was torn down, and the caller is told of a failed
call. -/
theorem methodInvocation_nativeRelay :
    ((invoke nativeRelay []).Makes (CommandHost.bare.environment 2) stopping nativeCall stopping ∧
      Interrupted (CommandHost.bare.environment 2) stopping nativeCall [nativeCall, stopCall]) ∧
    (((invoke nativeRelay []).run (CommandHost.bare.environment 2)).run.run stopping).1 =
      .error (.methodInvocation "Run" (.member .terminated)) := by
  have hmakes : (invoke nativeRelay []).Makes (CommandHost.bare.environment 2) stopping nativeCall
      stopping :=
    .direct (.invokeCode rfl rfl rfl rfl)
  have hinner : (invoke stop []).Makes (CommandHost.bare.environment 1) stopping stopCall
      stopping :=
    .direct (.invokeScript rfl)
  have hchain : Interrupted (CommandHost.bare.environment 2) stopping nativeCall
      [nativeCall, stopCall] :=
    .passedOn rfl hinner (.reported rfl) rfl
  exact ⟨⟨hmakes, hchain⟩, rfl⟩

end Access

end DynamicMembers
