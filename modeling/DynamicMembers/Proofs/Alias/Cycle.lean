import DynamicMembers.Proofs.Alias.Walk
import DynamicMembers.Proofs.Store.Operations

/-! # Reported cycles

A walk along references reports a cycle when it comes to a name that it has met. If
that is a name it has come through, the references go round and never end. The name of
the alias itself counts as met from the beginning, though, and it need not lead back
to the alias: the alias may be nested in a member set, or its place may have been
taken since. So a cycle is reported in one more case, which `reportsCycle_iff` says
exactly.
-/
namespace DynamicMembers

namespace Store

variable {adapter : Adapter} {s : Store} {o : ObjectId} {name : String}

theorem shown?_congr (hs : s.Reachable) {first second : String}
    (h : sameName first second = true) :
    s.shown? adapter o first = s.shown? adapter o second := by
  have hfind : (View.ofObject o).find? adapter s first =
      (View.ofObject o).find? adapter s second := by
    rw [View.find?_eq_find?_allSightings adapter hs.wellNamed rfl,
      View.find?_eq_find?_allSightings adapter hs.wellNamed rfl]
    simp only [sameName_congr_right h]
  show (((View.ofObject o).handOut? ((View.ofObject o).find? adapter s first)).run s).1 =
    (((View.ofObject o).handOut? ((View.ofObject o).find? adapter s second)).run s).1
  rw [hfind]

theorem next?_congr (hs : s.Reachable) {first second : String}
    (h : sameName first second = true) : s.next? adapter o first = s.next? adapter o second := by
  rw [next?, next?, shown?_congr hs h]

def Meets (adapter : Adapter) (s : Store) (o : ObjectId) (reference name : String) : Prop :=
  ∃ n, s.Leads adapter o reference n ∧ sameName n name = true

def Ends (adapter : Adapter) (s : Store) (o : ObjectId) (reference : String) : Prop :=
  ∃ n t, s.Leads adapter o reference n ∧ s.shown? adapter o n = some t ∧ t.reference? = none

theorem Endless.not_ends {reference : String} (h : Endless adapter s o reference) :
    ¬Ends adapter s o reference := by
  intro ⟨n, t, hleads, ht, hlast⟩
  have hnext := h n hleads
  rw [next?, ht, Option.bind_some, hlast] at hnext
  cases hnext

/-! ## A walk that goes round -/

/-- The names of a trail: each leads to another one of them, the last to the reference that is
to be followed next. -/
def Trail (adapter : Adapter) (s : Store) (o : ObjectId) (trail : List String)
    (reference : String) : Prop :=
  ∀ n ∈ trail, ∃ next, s.next? adapter o n = some next ∧ (next ∈ trail ∨ next = reference)

theorem Trail.nil (reference : String) : Trail adapter s o [] reference := by
  intro n hn
  cases hn

theorem Trail.concat {trail : List String} {reference next : String}
    (h : Trail adapter s o trail reference) (hnext : s.next? adapter o reference = some next) :
    Trail adapter s o (trail ++ [reference]) next := by
  intro n hn
  rcases List.mem_append.mp hn with hn | hn
  · obtain ⟨after, hafter, hmem⟩ := h n hn
    exact ⟨after, hafter, .inl (by simpa using hmem)⟩
  · obtain rfl := List.mem_singleton.mp hn
    exact ⟨next, hnext, .inr rfl⟩

/-- If the next reference is on the trail, all names that follow are. -/
theorem Trail.endless (hs : s.Reachable) {trail : List String} {reference start : String}
    (h : Trail adapter s o trail reference) (hmet : trail.any (sameName · reference) = true)
    (hstart : start ∈ trail ∨ start = reference) : Endless adapter s o start := by
  obtain ⟨earlier, hearlier, hsame⟩ := List.any_eq_true.mp hmet
  -- the invariant: a name that is reached is a spelling of one on the trail
  have hclosed : ∀ n, s.Leads adapter o start n → ∃ k ∈ trail, sameName k n = true := by
    intro n hn
    induction hn with
    | refl =>
      rcases hstart with hmem | rfl
      · exact ⟨start, hmem, sameName_refl start⟩
      · exact ⟨earlier, hearlier, hsame⟩
    | tail _ hstep ih =>
      obtain ⟨k, hk, hkn⟩ := ih
      obtain ⟨next, hnext, hmem⟩ := h k hk
      rw [next?_congr hs hkn, hstep, Option.some.injEq] at hnext
      subst hnext
      rcases hmem with hmem | rfl
      · exact ⟨_, hmem, sameName_refl _⟩
      · exact ⟨earlier, hearlier, hsame⟩
  intro n hn
  obtain ⟨k, hk, hkn⟩ := hclosed n hn
  obtain ⟨next, hnext, -⟩ := h k hk
  rw [← next?_congr hs hkn, hnext, Option.isSome_some]

/-! ## Walks that report a cycle -/

variable {reference : String} {lookups : Nat} {outcome : Except MemberError Member}

/-- A walk that has met the name of the alias and its trail reports a cycle only if the
references never end, or if they lead to that name. -/
theorem Walks.endless_or_meets (hs : s.Reachable) {trail : List String} {start : String}
    {blamed : String} {chain : List String}
    (h : Walks adapter s o name (name :: trail) reference lookups
      (.error (.aliasCycle blamed chain)))
    (htrail : Trail adapter s o trail reference) (hleads : s.Leads adapter o start reference)
    (hstart : start ∈ trail ∨ start = reference) :
    Endless adapter s o start ∨ Meets adapter s o start name := by
  generalize hpassed : name :: trail = passed at h
  generalize houtcome : Except.error _ = outcome at h
  induction h generalizing trail with
  | met hmet =>
    subst hpassed
    rcases Bool.or_eq_true_iff.mp hmet with hname | hmet
    · exact .inr ⟨_, hleads, by rwa [sameName_comm]⟩
    · exact .inl (htrail.endless hs hmet hstart)
  | missing => cases houtcome
  | found => cases houtcome
  | @followed passed reference next lookups outcome _ hnext _ ih =>
    subst hpassed
    refine ih (htrail.concat hnext) (hleads.tail hnext) (.inl ?_) rfl houtcome
    rcases hstart with hmem | rfl
    · exact List.mem_append_left _ hmem
    · exact List.mem_append_right _ (List.mem_singleton_self _)

/-- A walk that is led to a name it has met before reports a cycle. -/
theorem Walks.of_meets {passed : List String}
    (h : Walks adapter s o name passed reference lookups outcome)
    (hmet : ∃ earlier ∈ passed, Meets adapter s o reference earlier) :
    ∃ chain, outcome = .error (.aliasCycle name chain) := by
  obtain ⟨earlier, hearlier, n, hleads, hsame⟩ := hmet
  -- a name that is new is not the one that was met
  have hother {passed : List String} {reference : String} (hearlier : earlier ∈ passed)
      (hnew : passed.any (sameName · reference) = false) : n ≠ reference := by
    rintro rfl
    rw [sameName_comm] at hsame
    rw [List.any_eq_true.mpr ⟨earlier, hearlier, hsame⟩] at hnew
    cases hnew
  induction h with
  | met => exact ⟨_, rfl⟩
  | missing hnew h =>
    rcases hleads.cases_head with heq | ⟨next, hnext, -⟩
    · exact absurd heq.symm (hother hearlier hnew)
    · simp [next?, h] at hnext
  | found hnew h hlast =>
    rcases hleads.cases_head with heq | ⟨next, hnext, -⟩
    · exact absurd heq.symm (hother hearlier hnew)
    · simp [next?, h, hlast] at hnext
  | followed hnew h _ ih =>
    rcases hleads.cases_head with heq | ⟨next, hnext, hleads⟩
    · exact absurd heq.symm (hother hearlier hnew)
    · rw [h, Option.some.injEq] at hnext
      subst hnext
      exact ih (List.mem_append_left _ hearlier) hleads

/-! ## Aliases that are shown under their own names -/

/-- Where the alias of a name leads back to that name, its references never end. -/
theorem endless_of_meets (hs : s.Reachable) (hown : s.next? adapter o name = some reference)
    (hmeets : Meets adapter s o reference name) : Endless adapter s o reference := by
  obtain ⟨last, hlast, hsame⟩ := hmeets
  rw [← next?_congr hs hsame] at hown
  -- the invariant: from every name that is reached, the references lead to the last one
  have hreturn : ∀ n, s.Leads adapter o reference n → s.Leads adapter o n last := by
    intro n hn
    induction hn with
    | refl => exact hlast
    | tail _ hstep ih =>
      rcases ih.cases_head with rfl | ⟨next, hnext, hleads⟩
      · rw [hown, Option.some.injEq] at hstep
        rwa [← hstep]
      · rw [hnext, Option.some.injEq] at hstep
        rwa [← hstep]
  intro n hn
  rcases (hreturn n hn).cases_head with rfl | ⟨next, hnext, -⟩
  · rw [hown, Option.isSome_some]
  · rw [hnext, Option.isSome_some]

end Store

namespace Member

variable {adapter : Adapter} {s : Store} {o : ObjectId} {m : Member}

def ReportsCycle (adapter : Adapter) (s : Store) (m : Member) (reference : String) : Prop :=
  ∃ blamed chain, ((m.resolve adapter reference).run.run s).1 = .error (.aliasCycle blamed chain)

theorem reportsCycle_iff (adapter : Adapter) (hs : s.Reachable) (ho : s.ownerOf m = some o)
    (reference : String) :
    m.ReportsCycle adapter s reference ↔
      s.Endless adapter o reference ∨ s.Meets adapter o reference m.name := by
  obtain ⟨lookups, hwalk, -⟩ := Store.exists_walks_resolve adapter hs ho reference
  constructor
  · intro ⟨blamed, chain, hreport⟩
    rw [hreport] at hwalk
    exact hwalk.endless_or_meets hs (.nil reference) .refl (.inr rfl)
  · intro h
    rcases h with hendless | hmeets
    · exact ⟨m.name, hwalk.of_endless hendless⟩
    · exact ⟨m.name, hwalk.of_meets ⟨m.name, List.mem_singleton_self _, hmeets⟩⟩

/-- A cycle is reported exactly if the references never end or lead to the name of the alias.
The report is false exactly if they lead both to that name and to a member that is no alias;
this does not happen to an alias that its owner shows under its name. -/
theorem reportsCycle_exactly (adapter : Adapter) (hs : s.Reachable) (ho : s.ownerOf m = some o)
    (reference : String) :
    (m.ReportsCycle adapter s reference ↔
      s.Endless adapter o reference ∨ s.Meets adapter o reference m.name) ∧
    (m.ReportsCycle adapter s reference ∧ s.Ends adapter o reference ↔
      s.Meets adapter o reference m.name ∧ s.Ends adapter o reference) ∧
    (s.next? adapter o m.name = some reference →
      ¬(m.ReportsCycle adapter s reference ∧ s.Ends adapter o reference)) := by
  have hreports := reportsCycle_iff adapter hs ho reference
  refine ⟨hreports, ?_, ?_⟩
  · rw [hreports]
    constructor
    · intro ⟨hwhy, hends⟩
      rcases hwhy with hendless | hmeets
      · exact absurd hends hendless.not_ends
      · exact ⟨hmeets, hends⟩
    · intro ⟨hmeets, hends⟩
      exact ⟨.inr hmeets, hends⟩
  · intro hown ⟨hreport, hends⟩
    have hendless : s.Endless adapter o reference := by
      rcases hreports.mp hreport with hendless | hmeets
      · exact hendless
      · exact Store.endless_of_meets hs hown hmeets
    exact hendless.not_ends hends

/-- Attaches a note to an object, and a member set with an alias to the note that has the name
of the note itself. The outcome is the alias. -/
def nestAlias : Run MemberError (Option Member) := do
  let o ← (Store.wrap .null : StateM Store ObjectId)
  let cell ← (Store.addCell (.boolean true) : StateM Store CellId)
  let note ← define "Size" (.note cell)
  let _ ← (View.ofObject o).add note false
  let nested ← define "size" (.aliasOf "Size" none)
  match MemberList.ofMembers [nested] with
  | .error refusal => throw refusal
  | .ok members =>
    let l ← (Store.addList members : StateM Store ListId)
    let set ← define "Sizes" (.memberSet (.list l) false)
    let set ← (View.ofObject o).add set false
    match View.ofMember? (← get) set with
    | none => return none
    | some v => (v.get? .bag "size" : StateM Store (Option Member))

theorem stepwise_nestAlias : Store.Stepwise nestAlias.run := by
  refine (Store.stepwise_wrap _).lift.andThen fun o => ?_
  refine (Store.stepwise_addCell _).lift.andThen fun cell => ?_
  refine (stepwise_define _ _).andThen fun note => ?_
  refine (View.stepwise_add _ note false).andThen fun _ => ?_
  refine (stepwise_define _ _).andThen fun nested => ?_
  cases h : MemberList.ofMembers [nested] with
  | error refusal => exact Store.stepwise_throw refusal
  | ok members =>
    have haddList : Store.Stepwise (Store.addList members) :=
      Store.stepwise_of_step fun _ => .addList h
    refine haddList.lift.andThen fun l => ?_
    refine (stepwise_define _ _).andThen fun set => ?_
    refine (View.stepwise_add _ set false).andThen fun set => ?_
    refine Store.stepwise_read.andThen fun s => ?_
    cases View.ofMember? s set with
    | none => exact Store.stepwise_ok _
    | some v => exact (View.stepwise_get? .bag v "size").lift

def nesting : Store := (Store.initial #[]).after nestAlias.run

def nestedAlias : Member := ⟨.made 4, "size", .initial, some ⟨0⟩, .aliasOf "Size" none⟩

theorem reachable_nesting : nesting.Reachable :=
  (Store.Reachable.initial #[]).after stepwise_nestAlias

theorem ownerOf_nestedAlias : nesting.ownerOf nestedAlias = some ⟨0⟩ := by
  decide +kernel

theorem shown?_nesting : nesting.shown? .bag ⟨0⟩ "Size" =
    some ⟨.made 1, "Size", .initial, some ⟨0⟩, .note ⟨2⟩⟩ := by
  decide +kernel

/-- The alias is nested in a set of its owner and refers to a note there, yet a cycle is
reported. -/
theorem reportsCycle_nestedAlias :
    (nestAlias.run.run (Store.initial #[])).1.toOption = some (some nestedAlias) ∧
    nesting.Reachable ∧ nesting.ownerOf nestedAlias = some ⟨0⟩ ∧
    nestedAlias.ReportsCycle .bag nesting "Size" ∧ nesting.Ends .bag ⟨0⟩ "Size" :=
  ⟨by decide +kernel, reachable_nesting, ownerOf_nestedAlias,
    (reportsCycle_iff .bag reachable_nesting ownerOf_nestedAlias "Size").mpr
      (.inr ⟨"Size", .refl, by decide⟩),
    ⟨"Size", _, .refl, shown?_nesting, rfl⟩⟩

theorem reportsCycle_exactly_nestedAlias :
    nesting.Reachable ∧ nesting.ownerOf nestedAlias = some ⟨0⟩ ∧
    (nestedAlias.ReportsCycle .bag nesting "Size" ↔
      nesting.Endless .bag ⟨0⟩ "Size" ∨ nesting.Meets .bag ⟨0⟩ "Size" "size") ∧
    (nestedAlias.ReportsCycle .bag nesting "Size" ∧ nesting.Ends .bag ⟨0⟩ "Size" ↔
      nesting.Meets .bag ⟨0⟩ "Size" "size" ∧ nesting.Ends .bag ⟨0⟩ "Size") := by
  obtain ⟨hreports, hfalse, -⟩ :=
    reportsCycle_exactly .bag reachable_nesting ownerOf_nestedAlias "Size"
  exact ⟨reachable_nesting, ownerOf_nestedAlias, hreports, hfalse⟩

end Member

end DynamicMembers
