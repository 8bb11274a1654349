import DynamicMembers.Alias
import DynamicMembers.Proofs.View.Agreement

/-! # The walk of an alias

A reference of an alias is followed by a loop that nothing bounds: it looks names up
among the members of the owner until one is met that has been met before. `Walks` is
that loop, with the number of its lookups. Every walk ends, since the aliases whose
names have not been met become fewer (`Walks.exists`); and the bound that the
computation puts on the steps is never reached (`Walks.follow_eq`).
-/
namespace DynamicMembers

def MemberKind.reference? : MemberKind → Option String
  | .aliasOf reference _ => some reference
  | _ => none

@[simp] theorem MemberKind.reference?_form (kind : MemberKind) :
    kind.form.reference? = kind.reference? := by
  unfold form
  split <;> rfl

def Member.reference? (m : Member) : Option String := m.kind.reference?

theorem Member.reference?_eq_some_iff {m : Member} {reference : String} :
    m.reference? = some reference ↔ ∃ conversion, m.kind = .aliasOf reference conversion := by
  unfold Member.reference? MemberKind.reference?
  split
  · rename_i hkind
    simp [hkind]
  · rename_i hkind
    simpa using hkind reference

theorem Member.IsCopy.reference? {owner : Option ObjectId} {m other : Member}
    (h : m.IsCopy owner other) : other.reference? = m.reference? := by
  rw [Member.reference?, Member.reference?, ← MemberKind.reference?_form, h.form,
    MemberKind.reference?_form]

/-- An alias is handed out with its reference. -/
theorem View.reference?_handOut (v : View) (x : Sighting) (s : Store) :
    ((v.handOut x).run s).1.reference? = x.member.reference? :=
  (v.isCopy_handOut x s).reference?

namespace Store

def shown? (adapter : Adapter) (s : Store) (o : ObjectId) (name : String) : Option Member :=
  (((View.ofObject o).get? adapter name).run s).1

def next? (adapter : Adapter) (s : Store) (o : ObjectId) (name : String) : Option String :=
  (s.shown? adapter o name).bind Member.reference?

def aliases (adapter : Adapter) (s : Store) (o : ObjectId) : List Member :=
  (((View.ofObject o).members adapter).run s).1.filter fun m => m.reference?.isSome

abbrev Leads (adapter : Adapter) (s : Store) (o : ObjectId) : String → String → Prop :=
  Relation.ReflTransGen fun name next => s.next? adapter o name = some next

/-- Do references lead from the name from alias to alias without an end? -/
def Endless (adapter : Adapter) (s : Store) (o : ObjectId) (name : String) : Prop :=
  ∀ n, s.Leads adapter o name n → (s.next? adapter o n).isSome = true

/-- A walk from a reference: after so many lookups it comes to this outcome. The names in
`passed` have been met before, and `name` is that of the alias that failures are about. -/
inductive Walks (adapter : Adapter) (s : Store) (o : ObjectId) (name : String) :
    List String → String → Nat → Except MemberError Member → Prop
  | met {passed : List String} {reference : String}
      (h : passed.any (sameName · reference) = true) :
      Walks adapter s o name passed reference 0 (.error (.aliasCycle name (passed ++ [reference])))
  | missing {passed : List String} {reference : String}
      (hnew : passed.any (sameName · reference) = false)
      (h : s.shown? adapter o reference = none) :
      Walks adapter s o name passed reference 1 (.error (.aliasTargetMissing name reference))
  | found {passed : List String} {reference : String} {t : Member}
      (hnew : passed.any (sameName · reference) = false)
      (h : s.shown? adapter o reference = some t) (hlast : t.reference? = none) :
      Walks adapter s o name passed reference 1 (.ok t)
  | followed {passed : List String} {reference next : String} {lookups : Nat}
      {outcome : Except MemberError Member}
      (hnew : passed.any (sameName · reference) = false)
      (h : s.next? adapter o reference = some next)
      (hrest : Walks adapter s o name (passed ++ [reference]) next lookups outcome) :
      Walks adapter s o name passed reference (lookups + 1) outcome

variable {adapter : Adapter} {s : Store} {o : ObjectId} {name : String}

/-! ## Every walk ends -/

def unmet (adapter : Adapter) (s : Store) (o : ObjectId) (passed : List String) : List Member :=
  (s.aliases adapter o).filter fun m => !passed.any (sameName · m.name)

theorem shown?_eq_some_iff {t : Member} :
    s.shown? adapter o name = some t ↔ ∃ x, (View.ofObject o).find? adapter s name = some x ∧
      (((View.ofObject o).handOut x).run s).1 = t := by
  cases h : (View.ofObject o).find? adapter s name with
  | none => simp [shown?, View.get?_of_find?_none h]
  | some x => simp [shown?, View.get?_of_find? h]

theorem shown?_eq_none_iff :
    s.shown? adapter o name = none ↔ (View.ofObject o).find? adapter s name = none := by
  cases h : (View.ofObject o).find? adapter s name with
  | none => simp [shown?, View.get?_of_find?_none h]
  | some x => simp [shown?, View.get?_of_find? h]

theorem exists_alias_of_next? (hs : s.Reachable) {reference next : String}
    (h : s.next? adapter o reference = some next) :
    ∃ m ∈ s.aliases adapter o, sameName m.name reference = true := by
  obtain ⟨shown, hshown, hnext⟩ := Option.bind_eq_some_iff.mp h
  obtain ⟨x, hx, rfl⟩ := shown?_eq_some_iff.mp hshown
  rw [View.find?_eq_find?_allSightings adapter hs.wellNamed rfl] at hx
  have hcopies := View.forall₂_matching adapter (View.ofObject o) (View.isCopy_handOut _)
    .everything .all .everything s
  obtain ⟨m, hm, hcopy⟩ := exists_mem_of_forall₂ hcopies.flip (List.mem_of_find?_eq_some hx)
  have hxname : sameName x.name reference = true := by simpa using List.find?_some hx
  have hxnext : x.member.reference? = some next := by
    rw [← hnext, View.reference?_handOut]
  refine ⟨m, List.mem_filter.mpr ⟨hm, ?_⟩, by rwa [hcopy.name]⟩
  rw [hcopy.reference?, hxnext, Option.isSome_some]

theorem length_unmet_lt (hs : s.Reachable) {passed : List String} {reference next : String}
    (hnew : passed.any (sameName · reference) = false)
    (h : s.next? adapter o reference = some next) :
    (s.unmet adapter o (passed ++ [reference])).length < (s.unmet adapter o passed).length := by
  have hfewer : s.unmet adapter o (passed ++ [reference]) =
      (s.unmet adapter o passed).filter fun m => !sameName reference m.name := by
    simp [unmet, List.filter_filter, Bool.and_comm]
  obtain ⟨m, hm, hname⟩ := exists_alias_of_next? hs h
  rw [hfewer, List.length_filter_lt_length_iff_exists]
  have hmet : sameName reference m.name = true := by rwa [sameName_comm]
  refine ⟨m, List.mem_filter.mpr ⟨hm, ?_⟩, by simp [hmet]⟩
  simp only [sameName_congr_right hname, hnew, Bool.not_false]

/-- The walk ends, since every alias that it follows is one that it had not met before. -/
theorem Walks.exists (adapter : Adapter) (o : ObjectId) (name : String) (hs : s.Reachable)
    (passed : List String) (reference : String) :
    ∃ lookups outcome, Walks adapter s o name passed reference lookups outcome ∧
      lookups ≤ (s.unmet adapter o passed).length + 1 := by
  induction hn : (s.unmet adapter o passed).length using Nat.strong_induction_on
    generalizing passed reference with
  | _ n ih =>
    subst hn
    cases hnew : passed.any (sameName · reference) with
    | true => exact ⟨0, _, .met hnew, Nat.zero_le _⟩
    | false =>
      cases hshown : s.shown? adapter o reference with
      | none => exact ⟨1, _, .missing hnew hshown, Nat.le_add_left 1 _⟩
      | some t =>
        cases hlast : t.reference? with
        | none => exact ⟨1, _, .found hnew hshown hlast, Nat.le_add_left 1 _⟩
        | some next =>
          have hnext : s.next? adapter o reference = some next := by
            rw [next?, hshown, Option.bind_some, hlast]
          have hlt := length_unmet_lt hs hnew hnext
          obtain ⟨lookups, outcome, hwalk, hle⟩ := ih _ hlt (passed ++ [reference]) next rfl
          exact ⟨lookups + 1, outcome, .followed hnew hnext hwalk, by omega⟩

/-! ## The bounded computation makes the walk -/

/-- A walk of no more lookups than there are steps is made by `follow`. -/
theorem Walks.follow_eq {passed : List String} {reference : String} {lookups steps : Nat}
    {outcome : Except MemberError Member}
    (h : Walks adapter s o name passed reference lookups outcome) (hle : lookups ≤ steps) :
    (s.follow adapter o name steps passed reference).map
      (fun x => (((View.ofObject o).handOut x).run s).1) = outcome := by
  induction h generalizing steps with
  | met h =>
    cases steps with
    | zero => rfl
    | succ steps =>
      rw [follow, if_pos h]
      rfl
  | missing hnew h =>
    obtain ⟨steps, rfl⟩ := Nat.exists_eq_add_of_le' hle
    rw [follow, hnew, shown?_eq_none_iff.mp h]
    rfl
  | found hnew h hlast =>
    obtain ⟨steps, rfl⟩ := Nat.exists_eq_add_of_le' hle
    obtain ⟨x, hx, rfl⟩ := shown?_eq_some_iff.mp h
    rw [View.reference?_handOut] at hlast
    rw [follow, hnew, hx]
    simp only [Bool.false_eq_true, if_false]
    split
    · rename_i next conversion hkind
      simp [Member.reference?, MemberKind.reference?, hkind] at hlast
    · rfl
  | @followed passed reference next lookups outcome hnew h hrest ih =>
    obtain ⟨steps, rfl⟩ := Nat.exists_eq_add_of_le' (Nat.le_of_add_left_le hle)
    obtain ⟨t, ht, hnext⟩ := Option.bind_eq_some_iff.mp h
    obtain ⟨x, hx, rfl⟩ := shown?_eq_some_iff.mp ht
    rw [View.reference?_handOut] at hnext
    obtain ⟨conversion, hkind⟩ := Member.reference?_eq_some_iff.mp hnext
    rw [follow, hnew, hx]
    simp only [Bool.false_eq_true, if_false, hkind]
    exact ih (by omega)

theorem Walks.unique {passed : List String} {reference : String} {lookups lookups' : Nat}
    {outcome outcome' : Except MemberError Member}
    (h : Walks adapter s o name passed reference lookups outcome)
    (h' : Walks adapter s o name passed reference lookups' outcome') : outcome = outcome' := by
  rw [← h.follow_eq (Nat.le_add_right lookups lookups'),
    ← h'.follow_eq (Nat.le_add_left lookups' lookups)]

theorem pairwise_aliases (adapter : Adapter) (s : Store) (o : ObjectId) :
    (s.aliases adapter o).Pairwise fun m other => sameName m.name other.name = false :=
  ((View.ofObject o).pairwise_matching adapter .everything .all .everything).filter _

theorem length_aliases_le (adapter : Adapter) (s : Store) (o : ObjectId) :
    (s.aliases adapter o).length ≤ ((View.ofObject o).union adapter s).length := by
  have hcopies := View.forall₂_matching adapter (View.ofObject o) (View.isCopy_handOut _)
    .everything .all .everything s
  calc (s.aliases adapter o).length
      ≤ (((View.ofObject o).members adapter).run s).1.length := List.length_filter_le _ _
    _ = ((View.ofObject o).allSightings adapter s).length := hcopies.length_eq.symm
    _ = ((View.ofObject o).union adapter s).length := by
      rw [View.allSightings_of_mask_all adapter rfl]

theorem aliasTarget_of_owner {m : Member} (ho : s.ownerOf m = some o) (reference : String) :
    s.aliasTarget adapter m reference =
      (s.follow adapter o m.name (((View.ofObject o).union adapter s).length + 2) [m.name]
        reference).map (o, ·) := by
  simp only [aliasTarget, ho]
  cases s.follow adapter o m.name (((View.ofObject o).union adapter s).length + 2) [m.name]
    reference <;> rfl

/-- An alias with an owner resolves to what is handed out for the end of its walk. -/
theorem outcome_resolve {m : Member} (ho : s.ownerOf m = some o) (reference : String) :
    ((m.resolve adapter reference).run.run s).1 =
      (s.follow adapter o m.name (((View.ofObject o).union adapter s).length + 2) [m.name]
        reference).map fun x => (((View.ofObject o).handOut x).run s).1 := by
  have hresolve : m.resolve adapter reference = (get >>= fun s =>
      (liftM (s.aliasTarget adapter m reference) >>= fun target =>
        (liftM ((View.ofObject target.1).handOut target.2) : Run MemberError Member))) := by
    unfold Member.resolve
    rfl
  rw [hresolve, run_read_then, outcome_lift_then, aliasTarget_of_owner ho]
  generalize s.follow adapter o m.name _ _ reference = found
  cases found <;> rfl

/-- Resolving an alias is a walk from its reference that has met the name of the alias. -/
theorem exists_walks_resolve (adapter : Adapter) (hs : s.Reachable) {m : Member}
    (ho : s.ownerOf m = some o) (reference : String) :
    ∃ lookups, Walks adapter s o m.name [m.name] reference lookups
        ((m.resolve adapter reference).run.run s).1 ∧
      lookups < (s.aliases adapter o).length + 2 := by
  obtain ⟨lookups, outcome, hwalk, hle⟩ := Walks.exists adapter o m.name hs [m.name] reference
  have hunmet : (s.unmet adapter o [m.name]).length ≤ (s.aliases adapter o).length :=
    List.length_filter_le _ _
  have hsteps := length_aliases_le adapter s o
  refine ⟨lookups, ?_, by omega⟩
  rw [outcome_resolve ho, hwalk.follow_eq (by omega)]
  exact hwalk

/-! ## Where a walk ends -/

variable {passed : List String} {reference : String} {lookups : Nat}

theorem Walks.of_ok {t : Member} (h : Walks adapter s o name passed reference lookups (.ok t)) :
    ∃ n, s.Leads adapter o reference n ∧ s.shown? adapter o n = some t ∧ t.reference? = none := by
  generalize houtcome : Except.ok t = outcome at h
  induction h with
  | met => cases houtcome
  | missing => cases houtcome
  | @found passed reference t' _ h hlast =>
    cases houtcome
    exact ⟨reference, .refl, h, hlast⟩
  | followed _ h _ ih =>
    obtain ⟨n, hleads, hn⟩ := ih houtcome
    exact ⟨n, .head h hleads, hn⟩

theorem Walks.of_missing {blamed target : String}
    (h : Walks adapter s o name passed reference lookups
      (.error (.aliasTargetMissing blamed target))) :
    blamed = name ∧ s.Leads adapter o reference target ∧ s.shown? adapter o target = none := by
  generalize houtcome : Except.error _ = outcome at h
  induction h with
  | met => cases houtcome
  | missing _ h =>
    cases houtcome
    exact ⟨rfl, .refl, h⟩
  | found => cases houtcome
  | followed _ h _ ih =>
    obtain ⟨hblamed, hleads, hn⟩ := ih houtcome
    exact ⟨hblamed, .head h hleads, hn⟩

/-- Where references lead from alias to alias without an end, a cycle is reported. -/
theorem Walks.of_endless {outcome : Except MemberError Member}
    (h : Walks adapter s o name passed reference lookups outcome)
    (hendless : s.Endless adapter o reference) :
    ∃ chain, outcome = .error (.aliasCycle name chain) := by
  induction h with
  | met => exact ⟨_, rfl⟩
  | missing _ h => simpa [next?, h] using hendless _ .refl
  | found _ h hlast => simpa [next?, h, hlast] using hendless _ .refl
  | followed _ h _ ih => exact ih fun n hn => hendless n (.head h hn)

end Store

/-! ## Aliases -/

namespace Member

variable {adapter : Adapter} {s : Store} {o : ObjectId} {m : Member}

/-- Resolving the alias follows references among the members of the object. -/
structure FollowsReferences (adapter : Adapter) (s : Store) (o : ObjectId) (m : Member)
    (reference : String) : Prop where
  /-- The aliases of the object are counted by their names. -/
  distinct : (s.aliases adapter o).Pairwise fun m other => sameName m.name other.name = false
  /-- The walk ends, after fewer lookups than the object has aliases and two more. -/
  ends : ∃ lookups, s.Walks adapter o m.name [m.name] reference lookups
      ((m.resolve adapter reference).run.run s).1 ∧
    lookups < (s.aliases adapter o).length + 2
  /-- The outcome is the first member on the way that is no alias. -/
  found : ∀ t, ((m.resolve adapter reference).run.run s).1 = .ok t →
    ∃ n, s.Leads adapter o reference n ∧ s.shown? adapter o n = some t ∧ t.reference? = none
  missing : ∀ blamed target, ((m.resolve adapter reference).run.run s).1 =
      .error (.aliasTargetMissing blamed target) →
    blamed = m.name ∧ s.Leads adapter o reference target ∧ s.shown? adapter o target = none
  /-- Where every alias leads to another one, a cycle is reported. -/
  endless : s.Endless adapter o reference →
    ∃ chain, ((m.resolve adapter reference).run.run s).1 = .error (.aliasCycle m.name chain)

/-- The alias may be stored with its owner, nested in a set or held from before; all that it needs
is that its owner is there. -/
theorem followsReferences (hs : s.Reachable) (ho : s.ownerOf m = some o) (reference : String) :
    m.FollowsReferences adapter s o reference := by
  obtain ⟨lookups, hwalk, hlt⟩ := Store.exists_walks_resolve adapter hs ho reference
  refine ⟨Store.pairwise_aliases adapter s o, ⟨lookups, hwalk, hlt⟩, ?_, ?_, hwalk.of_endless⟩
  · intro t ht
    rw [ht] at hwalk
    exact hwalk.of_ok
  · intro blamed target hmissing
    rw [hmissing] at hwalk
    exact hwalk.of_missing

def chained : Store :=
  ((((Store.initial #[]).after (Store.wrapAs .null ["Box"])).after
    (Store.addToList ⟨0⟩
      ⟨.made 0, "Total", .initial, some ⟨0⟩, .aliasOf "sum" none⟩ true).run).after
    (Store.addToList ⟨0⟩ ⟨.made 1, "Count", .initial, some ⟨0⟩, .propertySet []⟩ true).run).after
    (Store.declare "box" ⟨.made 2, "Sum", .initial, none, .aliasOf "COUNT" none⟩).run

theorem reachable_chained : chained.Reachable :=
  ⟨#[], .tail (.tail (.tail (.tail .refl (.wrapAs _ _)) (.addToList _ _ _)) (.addToList _ _ _))
    (.declare _ _)⟩

/-- A stale handle whose name is no longer taken. -/
def staleAlias : Member := ⟨.made 3, "Old", .initial, some ⟨0⟩, .aliasOf "TOTAL" none⟩

theorem followsReferences_staleAlias :
    chained.Reachable ∧ chained.ownerOf staleAlias = some ⟨0⟩ ∧
    ((staleAlias.resolve .bag "TOTAL").run.run chained).1.toOption =
      some ⟨.made 1, "Count", .initial, some ⟨0⟩, .propertySet []⟩ ∧
    staleAlias.FollowsReferences .bag chained ⟨0⟩ "TOTAL" :=
  ⟨reachable_chained, by decide, by decide +kernel,
    followsReferences reachable_chained (by decide) "TOTAL"⟩

end Member

end DynamicMembers
