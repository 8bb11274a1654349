import DynamicMembers.Proofs.Adapter.Honest
import DynamicMembers.Proofs.Alias.Walk
import DynamicMembers.Proofs.Script.Runs
import DynamicMembers.Proofs.World.Loading

/-! # Operations are made of deeds

Whoever calls an operation on a member or a view uses what is held, and gets hold of what
it returns. Whatever the operation does to the store meanwhile, also in native callables
and scripts, is done by deeds (`World.Does`). Callables and scripts are given from
outside, and so are adapters. What is asked of them is that they do nothing else
themselves, and that an adapter has its values from where they were put
(`Environment.Modest`).
-/
namespace DynamicMembers
open Store

namespace World

variable {sharing : Bool}

/-- What the operation does to the store is done by deeds, and these get hold of the members in what
it returns. -/
def Does {ε α : Type} (sharing : Bool) (w : World) (x : Run ε α) (got : α → List Member) : Prop :=
  ∃ w', Deeds sharing w w' ∧ w'.store = w.store.after x.run ∧
    ∀ a, (x.run.run w.store).1 = .ok a → ∀ m ∈ got a, m ∈ w'.members

theorem Knows.later {w w' : World} {v : Value} (hv : w.Knows v) (h : Deeds sharing w w') :
    w'.Knows v :=
  fun m hm => Deeds.members_subset h (hv m hm)

section

variable {ε δ α β : Type} {w w' : World} {x : Run ε α} {f : α → Run ε β} {got : α → List Member}
  {brought : β → List Member} {a : α}

theorem does_ok (h : ∀ m ∈ got a, m ∈ w.members) : w.Does sharing (pure a : Run ε α) got := by
  refine ⟨w, .refl, rfl, ?_⟩
  rintro _ ⟨⟩
  exact h

theorem does_throw (failure : ε) : w.Does sharing (throw failure : Run ε α) got :=
  ⟨w, .refl, rfl, fun _ h => by cases h⟩

/-- What is done then is done with what was got hold of. -/
theorem Does.andThen (hx : w.Does sharing x got) (hf : ∀ a w', Deeds sharing w w' →
    (∀ m ∈ got a, m ∈ w'.members) → w'.Does sharing (f a) brought) :
    w.Does sharing (x >>= f) brought := by
  obtain ⟨w', hw', hstore, hgot⟩ := hx
  obtain ⟨outcome, t, hrun⟩ : ∃ outcome t, x.run.run w.store = (outcome, t) := ⟨_, _, rfl⟩
  rw [after, hrun] at hstore
  subst hstore
  cases outcome with
  | ok a =>
    obtain ⟨w'', hw'', hstore, hbrought⟩ := hf a w' hw' (hgot a (by rw [hrun]))
    refine ⟨w'', hw'.trans hw'', ?_, ?_⟩
    · rw [after, run_then_of_ok hrun, hstore, after]
    · rwa [run_then_of_ok hrun]
  | error failure =>
    refine ⟨w', hw', ?_, fun b hb => ?_⟩
    · rw [after, run_then_of_error hrun]
    · rw [run_then_of_error hrun] at hb
      cases hb

theorem does_read_then {f : Store → Run ε β} (h : w.Does sharing (f w.store) brought) :
    w.Does sharing (get >>= f) brought := h

theorem Does.mapFailure (f : ε → δ) (hx : w.Does sharing x got) :
    w.Does sharing (x.mapFailure f) got := by
  obtain ⟨w', hw', hstore, hgot⟩ := hx
  refine ⟨w', hw', hstore, fun a ha => hgot a ?_⟩
  rw [run_mapFailure] at ha
  cases houtcome : (x.run.run w.store).1 with
  | ok b =>
    rw [houtcome] at ha
    cases ha
    rfl
  | error failure =>
    rw [houtcome] at ha
    cases ha

theorem does_lift {x : StateM Store α} (hw' : Deeds sharing w w')
    (hstore : w'.store = w.store.after x) (hgot : ∀ m ∈ got (x.run w.store).1, m ∈ w'.members) :
    w.Does sharing (liftM x : Run ε α) got := by
  refine ⟨w', hw', hstore, ?_⟩
  rintro _ ⟨⟩
  exact hgot

theorem does_write {write : Store → Store} (h : Deeds sharing w (w.withStore (write w.store))) :
    w.Does sharing (modify write : Run ε PUnit) fun _ => [] :=
  ⟨_, h, rfl, fun _ _ _ hm => absurd hm List.not_mem_nil⟩

/-- A single deed is the first thing that is done. -/
theorem does_lift_then {x : StateM Store α} {f : α → Run ε β} (hw' : Deed sharing w w')
    (hstore : w'.store = w.store.after x) (hf : w'.Does sharing (f (x.run w.store).1) brought) :
    w.Does sharing (liftM x >>= f) brought := by
  obtain ⟨w'', hw'', hstore', hbrought⟩ := hf
  rw [hstore, after] at hstore' hbrought
  exact ⟨w'', .head hw' hw'', hstore', hbrought⟩

end

/-! ## Views -/

variable {w : World} {v : View} {ε : Type}

theorem does_handOut {adapter : Adapter} {x : Sighting} (hv : w.Sees v)
    (hx : v.Shows adapter w.store x) :
    w.Does sharing (liftM (v.handOut x) : Run ε Member) ([·]) := by
  obtain ⟨⟨m, t⟩, hrun⟩ : ∃ made, (v.handOut x).run w.store = made := ⟨_, rfl⟩
  have hlist := View.run_mapM_singleton hrun
  refine does_lift (.single (.get hv (List.forall_mem_singleton.mpr hx))) ?_ fun m' hm' => ?_
  · rw [gain, after, after, hlist, hrun]
  · rw [hrun] at hm'
    refine List.mem_append_left _ ?_
    rw [hlist]
    exact hm'

theorem does_handOut? {adapter : Adapter} (found : Option Sighting) (hv : w.Sees v)
    (hx : ∀ x ∈ found, v.Shows adapter w.store x) :
    w.Does sharing (liftM (v.handOut? found) : Run ε (Option Member)) (·.toList) := by
  cases found with
  | none => exact does_ok fun _ hm => absurd hm List.not_mem_nil
  | some x =>
    have hthen : (liftM (v.handOut? (some x)) : Run ε (Option Member)) =
      liftM (v.handOut x) >>= fun m => pure (some m) := rfl
    rw [hthen]
    exact (does_handOut hv (hx x rfl)).andThen fun m w' _ hm => does_ok (by simpa using hm)

theorem does_get? (adapter : Adapter) (hv : w.Sees v) (name : String) :
    w.Does sharing (liftM (v.get? adapter name) : Run ε (Option Member)) (·.toList) :=
  does_handOut? (v.find? adapter w.store name) hv fun _ hx => .found hx

theorem does_first? (adapter : Adapter) (hv : w.Sees v) (p : String → Bool) :
    w.Does sharing (liftM (v.first? adapter p) : Run ε (Option Member)) (·.toList) :=
  does_handOut? (v.firstSuch? adapter w.store p) hv fun _ hx => .such hx

theorem does_matchingText (adapter : Adapter) (hv : w.Sees v) (pattern : String) (types : TypeMask)
    (options : MatchOptions) :
    w.Does sharing (v.matchingText adapter pattern types options) id := by
  unfold View.matchingText
  split
  next pattern _ =>
    have hshows : ∀ x ∈ v.sightings adapter w.store pattern types options,
        v.Shows adapter w.store x := fun x hx => .listed (List.mem_of_mem_filter hx)
    refine does_lift (.single (.get hv hshows)) rfl fun m hm => ?_
    exact List.mem_append_left _ hm
  next => exact does_throw _

theorem does_add {m : Member} (hv : w.Sees v) (hm : m ∈ w.members) (vouched : Bool) :
    w.Does sharing (v.add m vouched) ([·]) := by
  refine ⟨_, .single (.add hv hm vouched), rfl, fun copy hcopy other hother => ?_⟩
  obtain rfl : other = copy := List.mem_singleton.mp hother
  refine List.mem_append_left _ ?_
  rw [hcopy]
  exact List.mem_singleton_self _

theorem does_remove (hv : w.Sees v) (name : String) :
    w.Does sharing (v.remove name) (·.toList) := by
  refine ⟨_, .single (.remove hv name), rfl, fun removed hremoved m hm => ?_⟩
  refine List.mem_append_left _ ?_
  rw [hremoved]
  simpa [returned] using hm

theorem does_define {kind : MemberKind} (name : String) (hk : w.Offers sharing kind) :
    w.Does sharing (Member.define name kind) ([·]) := by
  refine ⟨_, .single (.define name hk), rfl, fun m hm other hother => ?_⟩
  obtain rfl : other = m := List.mem_singleton.mp hother
  refine List.mem_append_left _ ?_
  rw [hm]
  exact List.mem_singleton_self _

end World

/-! ## Aliases -/

theorem Store.index_lt_of_isAlive {s : Store} {o : ObjectId} (h : s.isAlive o = true) :
    o.index < s.objects.size := by
  refine Nat.lt_of_not_le fun hle => ?_
  rw [isAlive, object?, Array.getElem?_eq_none hle] at h
  cases h

theorem Store.index_lt_of_ownerOf {s : Store} {m : Member} {o : ObjectId}
    (h : s.ownerOf m = some o) : o.index < s.objects.size :=
  index_lt_of_isAlive (Option.filter_eq_some_iff.mp h).2

theorem Store.exists_found_of_follow {adapter : Adapter} {s : Store} {o : ObjectId} {name : String}
    {steps : Nat} {passed : List String} {reference : String} {x : Sighting}
    (h : s.follow adapter o name steps passed reference = .ok x) :
    ∃ found, (View.ofObject o).find? adapter s found = some x := by
  induction steps generalizing passed reference with
  | zero => cases h
  | succ steps ih =>
    unfold follow at h
    split at h
    · cases h
    · split at h
      · cases h
      next y hy =>
        split at h
        · exact ih h
        · cases h
          exact ⟨reference, hy⟩

namespace World

variable {sharing : Bool} {w : World}

theorem does_resolve (adapter : Adapter) (m : Member) (reference : String) :
    w.Does sharing (m.resolve adapter reference) ([·]) := by
  refine does_read_then ?_
  cases ho : w.store.ownerOf m with
  | none =>
    have htarget : w.store.aliasTarget adapter m reference =
        .error (.aliasOutsideContainer m.name) := by
      rw [aliasTarget, ho]
    rw [htarget]
    exact does_throw _
  | some o =>
    rw [aliasTarget_of_owner ho]
    cases hfollow : w.store.follow adapter o m.name
        (((View.ofObject o).union adapter w.store).length + 2) [m.name] reference with
    | error failure => exact does_throw failure
    | ok x =>
      obtain ⟨found, hfound⟩ := exists_found_of_follow hfollow
      exact does_handOut (.object (index_lt_of_ownerOf ho) .all) (.found hfound)

end World

/-! ## Adapters -/

namespace World

variable {sharing : Bool} {w : World} {ε : Type}

theorem exists_knows_of_shelf (w : World) {vs : List Value} (hvs : ∀ v ∈ vs, v ∈ w.store.shelf) :
    ∃ w', Deeds sharing w w' ∧ w'.store = w.store ∧ ∀ v ∈ vs, w'.Knows v := by
  induction vs with
  | nil => exact ⟨w, .refl, rfl, fun _ h => absurd h List.not_mem_nil⟩
  | cons v rest ih =>
    obtain ⟨w', hw', hstore, hrest⟩ := ih fun v hv => hvs v (List.mem_cons_of_mem _ hv)
    have hv : v ∈ w'.store.shelf := hstore ▸ hvs v List.mem_cons_self
    refine ⟨_, hw'.tail (.readShelf hv), hstore, List.forall_mem_cons.mpr ⟨fun m hm => ?_,
      fun v hv m hm => ?_⟩⟩
    · exact List.mem_append_left _ hm
    · exact List.mem_append_right _ (hrest v hv m hm)

theorem exists_knows_state (w : World) (binding : Binding) : ∃ w', Deeds sharing w w' ∧
    w'.store = w.store ∧ (w.store.adapterState binding).members ⊆ w'.members := by
  have hthere : ∀ v ∈ w.store.shelf.toList, v ∈ w.store.shelf := fun v => Array.mem_toList_iff.mp
  obtain ⟨w', hw', hstore, hshelf⟩ := w.exists_knows_of_shelf hthere
  refine ⟨_, hw'.tail (.readCell binding.base), hstore, fun m hm => ?_⟩
  rcases List.mem_append.mp hm with hbase | hshelf'
  · rw [hstore]
    exact List.mem_append_left _ hbase
  · obtain ⟨v, hv, hm⟩ := List.mem_flatMap.mp hshelf'
    exact List.mem_append_right _ (hshelf v hv m hm)

theorem does_answer (binding : Binding) {v : Value} {given : List Member}
    (hv : v.members ⊆ (w.store.adapterState binding).members ++ given)
    (hgiven : given ⊆ w.members) : w.Does sharing (pure v : Run ε Value) Value.members := by
  obtain ⟨w', hw', hstore, hstate⟩ := w.exists_knows_state binding
  refine ⟨w', hw', hstore, ?_⟩
  rintro _ ⟨⟩ m hm
  exact (List.mem_append.mp (hv hm)).elim (fun h => hstate h)
    fun h => Deeds.members_subset hw' (hgiven h)

theorem does_askAdapter {binding : Binding} {m : Member} {wrap : Failure → MemberError}
    {request : Store → AdapterState → Except Failure AdapterState} {given : List Member}
    (hm : m ∈ w.members) (hbase : m.kind.sharedCell? = some binding.base)
    (hrequest : ∀ written, request w.store (w.store.adapterState binding) = .ok written →
      written.members ⊆ (w.store.adapterState binding).members ++ given)
    (hgiven : given ⊆ w.members) :
    w.Does sharing (Member.askAdapter binding wrap request) fun _ => [] := by
  refine does_read_then ?_
  cases hwritten : request w.store (w.store.adapterState binding) with
  | error failure => exact does_throw _
  | ok written =>
    obtain ⟨w', hw', hstore, hstate⟩ := w.exists_knows_state binding
    have hknows : written.members ⊆ w'.members := fun m hm =>
      (List.mem_append.mp (hrequest written hwritten hm)).elim (fun h => hstate h)
        fun h => Deeds.members_subset hw' (hgiven h)
    have hcell : Deed sharing w' (w'.withStore (w'.store.setCell binding.base written.base)) :=
      .setCell (.shared (Deeds.members_subset hw' hm) hbase)
        fun m hm => hknows (List.mem_append_left _ hm)
    have hshelf : ∀ v ∈ written.shelf, (w'.withStore
        (w'.store.setCell binding.base written.base)).Knows v := fun v hv m hm =>
      hknows (List.mem_append_right _
        (List.mem_flatMap.mpr ⟨v, Array.mem_toList_iff.mpr hv, hm⟩))
    refine ⟨_, (hw'.tail hcell).tail (.setShelf hshelf), ?_,
      fun _ _ _ h => absurd h List.not_mem_nil⟩
    · show ({ w'.store.setCell binding.base written.base with shelf := written.shelf } : Store) = _
      rw [hstore]
      rfl

end World

/-! ## Callables and scripts -/

/-- The arguments are held, and the owner is an object. -/
structure World.Serves (w : World) (call : Invocation) : Prop where
  args : ∀ v ∈ call.args, w.Knows v
  owner : ∀ o ∈ call.owner, o.index < w.store.objects.size

theorem World.Serves.later {w w' : World} {call : Invocation} (h : w.Serves call)
    (hw' : Deeds sharing w w') : w'.Serves call :=
  ⟨fun v hv => (h.args v hv).later hw',
    fun o ho => Nat.lt_of_lt_of_le (h.owner o ho) (Deeds.retains hw').objects⟩

/-- The host and the adapter have no other way to members and to the store than anyone else. -/
structure Environment.Modest (sharing : Bool) (env : Environment) : Prop where
  adapter : env.adapter.Honest
  evaluate : ∀ text {call} {w : World}, w.Serves call →
    w.Does sharing (env.evaluate text call) Value.members

theorem Environment.Modest.honest {env : Environment} (h : env.Modest sharing) (tag : AdapterTag) :
    (tag.adapter env.adapter).Honest := by
  cases tag with
  | model => exact h.adapter
  | bag => exact Adapter.honest_bag

namespace World

variable {sharing : Bool} {w : World} {env : Environment}

theorem does_call (henv : env.Modest sharing) (code : CodeReference) {owner : ObjectId}
    {args : List Value} (howner : owner.index < w.store.objects.size)
    (hargs : ∀ v ∈ args, w.Knows v) :
    w.Does sharing (code.call env owner args) Value.members := by
  unfold CodeReference.call
  split
  · exact does_read_then (does_ok (by simp [Value.members, Value.mem_itemMembers]))
  · refine henv.evaluate _ ⟨hargs, ?_⟩
    rintro _ ⟨⟩
    exact howner

/-- The run begins when its block has been taken, and ends when that is back. -/
theorem does_run (henv : env.Modest sharing) (i : ScriptId) {owner : Option ObjectId}
    {args : List Value} (policy : RunPolicy) (howner : ∀ o ∈ owner, o.index < w.store.objects.size)
    (hargs : ∀ v ∈ args, w.Knows v) :
    w.Does sharing (i.run env owner args policy) Value.members := by
  rcases ScriptId.prepare_cases env i w.store with ⟨fault, -, -, hprepare⟩ |
    ⟨asked, template, blocks, -, hprepare⟩
  · have hrun : (i.run env owner args policy).run.run w.store = (.error fault, w.store) :=
      run_then_of_error hprepare
    refine ⟨w, .refl, by rw [after, hrun], fun v hv => ?_⟩
    rw [hrun] at hv
    cases hv
  · obtain ⟨turn, remaining, hout⟩ : ∃ turn : Blocks.Turn Block, ∃ remaining,
        blocks.checkOut template policy.onCopy = (turn.block, turn.isShared, remaining) :=
      ⟨⟨_, _⟩, _, rfl⟩
    have hbegun : Deeds sharing w (w.withStore (w.store.begun i remaining policy.mode)) := by
      have hcheckOut : Deed sharing w _ := .checkOut hprepare policy.onCopy
      rw [hout] at hcheckOut
      exact .tail (.single hcheckOut) (.logMode policy.mode)
    have hserves : (w.withStore (w.store.begun i remaining policy.mode)).Serves
        ⟨owner, args, turn.block.ran.runs, policy.mode⟩ := ⟨hargs, howner⟩
    obtain ⟨w', hw', hstore, hgot⟩ := henv.evaluate turn.block.text hserves
    obtain ⟨outcome, called, hcall⟩ : ∃ outcome called,
        (env.evaluate turn.block.text ⟨owner, args, turn.block.ran.runs, policy.mode⟩).run.run
          (w.store.begun i remaining policy.mode) = (outcome, called) := ⟨_, _, rfl⟩
    have hrun := ScriptId.run_of_prepared hprepare hout hcall
    replace hstore : w'.store = called := hstore.trans (congrArg Prod.snd hcall)
    have hvalue : ∀ v, outcome.mapError ScriptError.ofFailure = .ok v →
        ∀ m ∈ v.members, m ∈ w'.members := by
      intro v hv
      refine hgot v ((congrArg Prod.fst hcall).trans ?_)
      cases outcome <;> cases hv
      rfl
    cases hshared : turn.isShared with
    | true =>
      refine ⟨_, (hbegun.trans hw').tail (.checkIn i turn.block.ran), ?_, fun v hv => ?_⟩
      · rw [after, hrun, hshared, if_pos rfl, hstore]
        rfl
      · rw [hrun] at hv
        exact hvalue v hv
    | false =>
      refine ⟨w', hbegun.trans hw', ?_, fun v hv => ?_⟩
      · rw [after, hrun, hshared, hstore]
        rfl
      · rw [hrun] at hv
        exact hvalue v hv

end World

/-! ## Members -/

theorem CodeReference.members_of_convertArgs {write : Value → String} {params : List ParamType}
    {args converted : List Value} (h : convertArgs write params args = .ok converted) :
    converted.flatMap Value.members ⊆ args.flatMap Value.members := by
  have hcons {first v : Value} {others args : List Value} (hfirst : first.members ⊆ v.members)
      (hothers : others.flatMap Value.members ⊆ args.flatMap Value.members) :
      (first :: others).flatMap Value.members ⊆ (v :: args).flatMap Value.members := by
    rw [List.flatMap_cons, List.flatMap_cons]
    exact List.append_subset.mpr ⟨List.subset_append_of_subset_left _ hfirst,
      List.subset_append_of_subset_right _ hothers⟩
  induction params, args using convertArgs.induct generalizing converted with
  | case1 type params v args ih =>
    obtain ⟨first, hfirst, h⟩ := exists_of_bind_eq_ok h
    obtain ⟨others, hothers, h⟩ := exists_of_bind_eq_ok h
    cases h
    exact hcons (Value.members_of_convertTo hfirst) (ih hothers)
  | case2 params v args ih =>
    obtain ⟨others, hothers, h⟩ := exists_of_bind_eq_ok h
    cases h
    exact hcons (List.Subset.refl _) (ih hothers)
  | case3 params args =>
    rw [convertArgs] at h
    · cases h
      exact List.nil_subset _
    all_goals assumption

namespace World

variable {sharing : Bool} {w : World} {env : Environment} {m : Member} {v : Value}
  {args : List Value}

theorem does_convertFor (hv : w.Knows v) (type : ValueType) :
    w.Does sharing (convertFor env m type v) Value.members := by
  refine does_read_then ?_
  split
  next hconverted => exact does_ok fun m hm => hv m (Value.members_of_convertTo hconverted hm)
  next => exact does_throw _

theorem does_returned {x : Run MemberError Value} (hx : w.Does sharing x Value.members)
    (type : Option ValueType) : w.Does sharing (do
      let v ← x
      match type with
      | some type => convertFor env m type v
      | none => return v) Value.members := by
  refine hx.andThen fun v w' _ hv => ?_
  cases type with
  | some type => exact does_convertFor hv type
  | none => exact does_ok hv

theorem does_valueItself (henv : env.Modest sharing) (hm : m ∈ w.members) :
    w.Does sharing (m.valueItself env) Value.members := by
  have hcell (c : CellId) :
      w.Does sharing (pure (w.store.cell c) : Run MemberError Value) Value.members :=
    ⟨_, .single (.readCell c), rfl, by rintro _ ⟨⟩ m hm; exact List.mem_append_left _ hm⟩
  have howner : ∀ o ∈ w.store.ownerOf m, o.index < w.store.objects.size :=
    fun o ho => index_lt_of_ownerOf ho
  refine does_read_then ?_
  split
  case h_1 => exact does_throw _
  case h_2 getter _ _ =>
    split
    next => exact does_throw _
    next owner ho =>
      refine does_returned (.mapFailure _ (does_call henv getter (howner owner ho) ?_)) _
      exact fun _ h => absurd h List.not_mem_nil
  case h_3 | h_4 | h_5 => exact hcell _
  case h_6 => exact does_throw _
  case h_7 => exact .mapFailure _ (does_run henv _ _ howner fun _ h => absurd h List.not_mem_nil)
  case h_8 binding _ =>
    dsimp only
    split
    · exact does_throw _
    · split
      next hget =>
        exact does_answer binding (List.subset_append_of_subset_left []
          ((henv.honest binding.adapter).get hget)) (List.nil_subset _)
      next => exact does_throw _
  case h_9 => exact does_ok (by simp [Value.members])
  case h_10 => exact does_throw _
  case h_11 => exact does_ok (by simpa [Value.members] using hm)

theorem does_value (henv : env.Modest sharing) (hm : m ∈ w.members) :
    w.Does sharing (m.value env) Value.members := by
  unfold Member.value
  split
  · refine (does_resolve _ m _).andThen fun target w' _ htarget => ?_
    exact does_returned (does_valueItself henv (htarget target (List.mem_singleton_self _))) _
  · exact does_valueItself henv hm

theorem does_writeVariable {ε : Type} {target : Variable} (hc : w.Writes target.cell)
    (hv : w.Knows v) :
    w.Does sharing (liftM (writeVariable target v) : Run ε Bool) fun _ => [] := by
  cases hwritable : target.isWritable with
  | true =>
    refine does_lift (.single (.setCell hc hv)) ?_ fun _ h => absurd h List.not_mem_nil
    rw [writeVariable, if_pos hwritable]
    rfl
  | false =>
    refine does_lift .refl ?_ fun _ h => absurd h List.not_mem_nil
    rw [writeVariable, if_neg (by simp [hwritable])]
    rfl

theorem does_setValueItself (henv : env.Modest sharing) (hm : m ∈ w.members) (hv : w.Knows v) :
    w.Does sharing (m.setValueItself env v) fun _ => [] := by
  have howner : ∀ o ∈ w.store.ownerOf m, o.index < w.store.objects.size :=
    fun o ho => index_lt_of_ownerOf ho
  have hdone {w : World} {x : Run MemberError Value} (hx : w.Does sharing x Value.members) :
      w.Does sharing (do let _ ← x) fun _ => [] :=
    hx.andThen fun _ _ _ _ => does_ok fun _ h => absurd h List.not_mem_nil
  have hcell {c : CellId} (hc : w.Writes c) :
      w.Does sharing (set (w.store.setCell c v) : Run MemberError Unit) fun _ => [] :=
    ⟨_, .single (.setCell hc hv), rfl, fun _ _ _ h => absurd h List.not_mem_nil⟩
  refine does_read_then ?_
  split
  case h_1 => exact does_throw _
  case h_2 setter _ =>
    split
    next => exact does_throw _
    next owner ho =>
      have hcall {w' : World} {accepted : Value} (hw' : Deeds sharing w w')
          (haccepted : w'.Knows accepted) : w'.Does sharing (do
            let _ ← (setter.call env owner [accepted]).mapFailure
              (MemberError.setValueInvocation m.name)
            return ()) fun _ => [] := by
        have howner' := Nat.lt_of_lt_of_le (howner owner ho) (Deeds.retains hw').objects
        exact hdone (.mapFailure _
          (does_call henv setter howner' (List.forall_mem_singleton.mpr haccepted)))
      dsimp only
      split
      · exact (does_convertFor hv _).andThen fun accepted w' hw' haccepted =>
          hcall hw' haccepted
      · exact hcall .refl hv
  case h_3 cell hkind =>
    split
    · exact hcell (.own hm (by rw [hkind]; rfl))
    · exact does_throw _
  case h_4 cell hkind => exact hcell (.own hm (by rw [hkind]; rfl))
  case h_5 target hkind =>
    refine (does_writeVariable (.shared hm (by rw [hkind]; rfl)) hv).andThen fun wrote _ _ _ => ?_
    split
    · exact does_ok fun _ h => absurd h List.not_mem_nil
    · exact does_throw _
  case h_6 => exact does_throw _
  case h_7 setter policy _ =>
    exact hdone (.mapFailure _
      (does_run henv setter policy howner (List.forall_mem_singleton.mpr hv)))
  case h_8 binding hkind =>
    dsimp only
    split
    · exact does_throw _
    · exact does_askAdapter hm (by rw [hkind]; rfl)
        (fun written hwritten => (henv.honest binding.adapter).set hwritten) hv
  case h_9 => exact does_throw _

theorem does_setValue (henv : env.Modest sharing) (hm : m ∈ w.members) (hv : w.Knows v) :
    w.Does sharing (m.setValue env v) fun _ => [] := by
  unfold Member.setValue
  split
  · refine (does_resolve _ m _).andThen fun target w' hw' htarget => ?_
    exact does_setValueItself henv (htarget target (List.mem_singleton_self _)) (hv.later hw')
  · exact does_setValueItself henv hm hv

theorem does_invokeCode (henv : env.Modest sharing) (code : CodeReference)
    (hargs : ∀ v ∈ args, w.Knows v) :
    w.Does sharing (m.invokeCode env code args) Value.members := by
  refine does_read_then ?_
  split
  next => exact does_throw _
  next owner ho =>
    dsimp only
    split
    · exact does_throw _
    · split
      next => exact does_throw _
      next converted hconverted =>
        have hknown : ∀ v ∈ converted, w.Knows v := fun v hv m hm => by
          have hgiven := CodeReference.members_of_convertArgs hconverted
            (List.mem_flatMap.mpr ⟨v, hv, hm⟩)
          obtain ⟨arg, harg, hm⟩ := List.mem_flatMap.mp hgiven
          exact hargs arg harg m hm
        refine (Does.mapFailure _ (does_call henv code (index_lt_of_ownerOf ho) hknown)).andThen
          fun v w' _ hv => ?_
        split
        · exact does_convertFor hv _
        · exact does_ok (by simp [Value.members])

theorem does_invokeWith (henv : env.Modest sharing) (hints : InvocationHints)
    (hargs : ∀ v ∈ args, w.Knows v) :
    w.Does sharing (m.invokeWith env hints args) Value.members := by
  have hgiven : args.flatMap Value.members ⊆ w.members := fun m hm => by
    obtain ⟨arg, harg, hm⟩ := List.mem_flatMap.mp hm
    exact hargs arg harg m hm
  refine does_read_then ?_
  dsimp only
  split
  case h_1 binding _ =>
    split
    next hinvoke =>
      exact does_answer binding ((henv.honest binding.adapter).invoke hinvoke) hgiven
    next => exact does_throw _
  case h_2 => exact does_invokeCode henv _ hargs
  case h_3 =>
    exact .mapFailure _ (does_run henv _ _ (fun o ho => index_lt_of_ownerOf ho) hargs)
  case h_4 binding _ =>
    split
    next hget =>
      exact does_answer binding ((henv.honest binding.adapter).getIndexed hget) hgiven
    next => exact does_throw _
  case h_5 => exact does_throw _

theorem does_invokeSet (henv : env.Modest sharing) (hm : m ∈ w.members) (hv : w.Knows v)
    (hargs : ∀ v ∈ args, w.Knows v) : w.Does sharing (m.invokeSet env v args) fun _ => [] := by
  refine does_read_then ?_
  split
  next binding hkind =>
    dsimp only
    split
    · exact does_throw _
    · refine does_askAdapter hm (by rw [hkind]; rfl)
        (fun written hwritten => (henv.honest binding.adapter).setIndexed hwritten) fun m hm => ?_
      obtain ⟨arg, harg, hm⟩ := List.mem_flatMap.mp hm
      exact List.forall_mem_cons.mpr ⟨hv, hargs⟩ arg harg m hm
  next => exact does_throw _

end World

end DynamicMembers
