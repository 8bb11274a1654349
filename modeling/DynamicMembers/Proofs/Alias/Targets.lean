import DynamicMembers.Answering
import DynamicMembers.Proofs.Alias.Cycle

/-! # What a name leads to

A name leads to the member that it is the name of or, where that is an alias, to whatever the
reference of the alias leads to (`Store.LeadsTo`). An alias that its owner shows under its name
resolves to what the name leads to, with no cycle reported on the way
(`Store.aliasTarget_of_leadsTo`). So reading and writing an alias is reading and writing what
it leads to, and of all aliases on the way only the first one converts what is read.
-/
namespace DynamicMembers

namespace Store

/-- The sighting is no alias, and the name is its own or leads to it from alias to alias. -/
def LeadsTo (adapter : Adapter) (s : Store) (o : ObjectId) (name : String) (x : Sighting) : Prop :=
  ∃ n, s.Leads adapter o name n ∧ (View.ofObject o).find? adapter s n = some x ∧
    x.member.reference? = none

end Store

/-- What is read by way of the member of a value that it leads to: an alias converts it to the type
that it declares, and has no answer if the conversion has none. -/
def Member.rendering? (m : Member) (write : Value → Option String) (v : Value) :
    Option (Except MemberError Value) :=
  match m.kind with
  | .aliasOf _ (some type) => (v.convertTo? write type).map (·.mapError (.conversion m.name))
  | _ => some (.ok v)

theorem Member.reference?_eq_none_iff {m : Member} :
    m.reference? = none ↔ ∀ reference conversion, m.kind ≠ .aliasOf reference conversion := by
  rw [← Option.not_isSome_iff_eq_none, Option.isSome_iff_exists]
  simp only [Member.reference?_eq_some_iff, not_exists, ne_eq]

namespace Store

variable {adapter : Adapter} {s t : Store} {o : ObjectId} {name reference : String}
  {x y : Sighting} {m : Member}

theorem next?_eq (adapter : Adapter) (s : Store) (o : ObjectId) (name : String) :
    s.next? adapter o name =
      ((View.ofObject o).find? adapter s name).bind (·.member.reference?) := by
  cases h : (View.ofObject o).find? adapter s name with
  | none =>
    rw [next?, shown?_eq_none_iff.mpr h]
    rfl
  | some x =>
    rw [next?, shown?_eq_some_iff.mpr ⟨x, h, rfl⟩, Option.bind_some, Option.bind_some,
      View.reference?_handOut]

theorem leads_unique {first second : String} (h : s.Leads adapter o name first)
    (hend : s.next? adapter o first = none) (h' : s.Leads adapter o name second)
    (hend' : s.next? adapter o second = none) : first = second := by
  have hstays {a b : String} (ha : s.next? adapter o a = none) (hab : s.Leads adapter o a b) :
      a = b := by
    rcases hab.cases_head with rfl | ⟨next, hnext, -⟩
    · rfl
    · cases ha.symm.trans hnext
  rcases Relation.ReflTransGen.total_of_right_unique
    (fun _ _ _ hb hc => Option.some.inj (hb.symm.trans hc)) h h' with hab | hba
  · exact hstays hend hab
  · exact (hstays hend' hba).symm

/-- What names lead to depends on what the object shows. -/
theorem leadsTo_congr (hfind : ∀ n, (View.ofObject o).find? adapter t n =
    (View.ofObject o).find? adapter s n) :
    t.LeadsTo adapter o name x ↔ s.LeadsTo adapter o name x := by
  have hnext (n : String) : t.next? adapter o n = s.next? adapter o n := by
    rw [next?_eq, next?_eq, hfind]
  simp only [LeadsTo, Leads, hnext, hfind]

namespace LeadsTo

theorem next?_eq_none {n : String} (h : (View.ofObject o).find? adapter s n = some x)
    (hlast : x.member.reference? = none) : s.next? adapter o n = none := by
  rw [next?_eq, h, Option.bind_some, hlast]

theorem unique (h : s.LeadsTo adapter o name x) (h' : s.LeadsTo adapter o name y) : x = y := by
  obtain ⟨n, hleads, hx, hlast⟩ := h
  obtain ⟨k, hleads', hy, hlast'⟩ := h'
  obtain rfl := leads_unique hleads (next?_eq_none hx hlast) hleads' (next?_eq_none hy hlast')
  exact Option.some.inj (hx.symm.trans hy)

/-- What a name leads to is what is found under it, or what the reference of that leads to. -/
theorem cases_find? (h : s.LeadsTo adapter o name x) :
    ((View.ofObject o).find? adapter s name = some x ∧ x.member.reference? = none) ∨
      ∃ y next, (View.ofObject o).find? adapter s name = some y ∧
        y.member.reference? = some next ∧ s.LeadsTo adapter o next x := by
  obtain ⟨n, hleads, hx, hlast⟩ := h
  rcases hleads.cases_head with rfl | ⟨next, hnext, hleads⟩
  · exact .inl ⟨hx, hlast⟩
  · rw [next?_eq] at hnext
    obtain ⟨y, hy, hnext⟩ := Option.bind_eq_some_iff.mp hnext
    exact .inr ⟨y, next, hy, hnext, n, hleads, hx, hlast⟩

theorem ends (h : s.LeadsTo adapter o name x) : s.Ends adapter o name := by
  obtain ⟨n, hleads, hx, hlast⟩ := h
  exact ⟨n, _, hleads, shown?_eq_some_iff.mpr ⟨x, hx, rfl⟩, by rwa [View.reference?_handOut]⟩

end LeadsTo

theorem leadsTo_of_follow {blamed : String} {steps : Nat} {passed : List String}
    (h : s.follow adapter o blamed steps passed reference = .ok x) :
    s.LeadsTo adapter o reference x := by
  induction steps generalizing passed reference with
  | zero => cases h
  | succ steps ih =>
    rw [follow] at h
    split at h
    · cases h
    · split at h
      · cases h
      next y hy =>
        split at h
        next next conversion hkind =>
          obtain ⟨n, hleads, hx⟩ := ih h
          have hnext : s.next? adapter o reference = some next := by
            rw [next?_eq, hy, Option.bind_some, Member.reference?, hkind]
            rfl
          exact ⟨n, .head hnext hleads, hx⟩
        next hkind =>
          cases h
          exact ⟨reference, .refl, hy, Member.reference?_eq_none_iff.mpr hkind⟩

/-- A walk that does not end with a member reports a cycle or a name that is missing. -/
theorem Walks.failure_cases {passed : List String} {lookups : Nat} {failure : MemberError}
    (h : Walks adapter s o name passed reference lookups (.error failure)) :
    (∃ chain, failure = .aliasCycle name chain) ∨
      ∃ target, failure = .aliasTargetMissing name target := by
  generalize houtcome : Except.error failure = outcome at h
  induction h with
  | met =>
    cases houtcome
    exact .inl ⟨_, rfl⟩
  | missing =>
    cases houtcome
    exact .inr ⟨_, rfl⟩
  | found => cases houtcome
  | followed _ _ _ ih => exact ih houtcome

/-- An alias that its owner shows under its name resolves to what its reference leads to. -/
theorem aliasTarget_of_leadsTo (hs : s.Reachable) (ho : s.ownerOf m = some o)
    (hown : s.next? adapter o m.name = some reference) (hx : s.LeadsTo adapter o reference x) :
    s.aliasTarget adapter m reference = .ok (o, x) := by
  rw [aliasTarget_of_owner ho]
  cases hfollow : s.follow adapter o m.name (((View.ofObject o).union adapter s).length + 2)
      [m.name] reference with
  | ok y =>
    obtain rfl := hx.unique (leadsTo_of_follow hfollow)
    rfl
  | error failure =>
    have hends := hx.ends
    have houtcome : ((m.resolve adapter reference).run.run s).1 = .error failure := by
      rw [outcome_resolve ho, hfollow]
      rfl
    obtain ⟨lookups, hwalk, -⟩ := exists_walks_resolve adapter hs ho reference
    rw [houtcome] at hwalk
    rcases hwalk.failure_cases with ⟨chain, rfl⟩ | ⟨target, rfl⟩
    · exact absurd ⟨⟨_, chain, houtcome⟩, hends⟩
        ((Member.reportsCycle_exactly adapter hs ho reference).2.2 hown)
    · obtain ⟨-, hleads, hnone⟩ := hwalk.of_missing
      obtain ⟨n, t, hleads', hshown, hlast⟩ := hends
      obtain rfl := leads_unique hleads (by rw [next?, hnone]; rfl) hleads'
        (by rw [next?, hshown, Option.bind_some, hlast])
      cases hnone.symm.trans hshown

end Store

namespace Member

variable {env : Environment} {s t : Store} {o : ObjectId} {m target : Member}
  {reference : String} {conversion : Option ValueType} {x : Sighting} {v : Value}

theorem run_resolve {adapter : Adapter} (h : s.aliasTarget adapter m reference = .ok (o, x))
    (hrun : ((View.ofObject o).handOut x).run s = (target, t)) :
    (m.resolve adapter reference).run.run s = (.ok target, t) := by
  rw [resolve, Store.run_read_then, h]
  show (Except.ok (((View.ofObject o).handOut x).run s).1,
    (((View.ofObject o).handOut x).run s).2) = _
  rw [hrun]

/-- Of all aliases on the way, the one that is read converts what is read. -/
theorem value?_alias (hm : m.kind = .aliasOf reference conversion)
    (htarget : s.aliasTarget env.adapter m reference = .ok (o, x))
    (hrun : ((View.ofObject o).handOut x).run s = (target, t))
    (hanswers : target.answersItself env t = true)
    (hvalue : (target.valueItself env).run.run t = (.ok v, t)) :
    m.value? env s = (m.rendering? (t.text? env.adapter) v).map (·, t) := by
  have hresolve := run_resolve htarget hrun
  have hends : m.answers env s = t.finishes env.adapter conversion v := by
    rw [answers, hm]
    simp only [hresolve, hanswers, Run.finishes, hvalue, Bool.true_and]
  rw [value?, hends, value, rendering?, hm]
  cases conversion with
  | none =>
    dsimp only
    rw [Store.run_then_of_ok hresolve, Store.run_then_of_ok hvalue]
    rfl
  | some type =>
    dsimp only
    rw [Store.run_then_of_ok hresolve, Store.run_then_of_ok hvalue, convertFor,
      Store.run_read_then, Store.finishes, Option.all_some]
    cases hconvert : v.convertTo? (t.text? env.adapter) type with
    | none => rfl
    | some answer =>
      have hanswer : v.convertTo (t.text env.adapter) type = answer :=
        (Value.convertTo?_eq_some_iff.mp hconvert).2
      rw [hanswer]
      cases answer <;> rfl

theorem run_setValue_alias (hm : m.kind = .aliasOf reference conversion)
    (htarget : s.aliasTarget env.adapter m reference = .ok (o, x))
    (hrun : ((View.ofObject o).handOut x).run s = (target, t)) (v : Value) :
    (m.setValue env v).run.run s = (target.setValueItself env v).run.run t := by
  rw [setValue, hm]
  exact Store.run_then_of_ok (run_resolve htarget hrun)

theorem value_of_reference?_eq_none (h : m.reference? = none) :
    m.value env = m.valueItself env := by
  unfold value
  split
  next hm => exact absurd hm (reference?_eq_none_iff.mp h _ _)
  next => rfl

theorem setValue_of_reference?_eq_none (h : m.reference? = none) (v : Value) :
    m.setValue env v = m.setValueItself env v := by
  unfold setValue
  split
  next hm => exact absurd hm (reference?_eq_none_iff.mp h _ _)
  next => rfl

theorem rendering?_of_reference?_eq_none (h : m.reference? = none)
    (write : Value → Option String) : m.rendering? write v = some (.ok v) := by
  unfold rendering?
  split
  next hm => exact absurd hm (reference?_eq_none_iff.mp h _ _)
  next => rfl

theorem value?_of_reference?_eq_none (h : m.reference? = none)
    (hanswers : m.answersItself env s = true) :
    m.value? env s = some ((m.valueItself env).run.run s) := by
  have hends : m.answers env s = true := by
    unfold answers
    split
    next hm => exact absurd hm (reference?_eq_none_iff.mp h _ _)
    next => exact hanswers
  rw [value?, if_pos hends, value_of_reference?_eq_none h]

end Member

end DynamicMembers
