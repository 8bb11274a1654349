import DynamicMembers.Proofs.Alias.Targets
import DynamicMembers.Proofs.Store.Spots
import DynamicMembers.Proofs.View.Surfacing

/-! # Reading and writing what a name leads to

A name of an object leads to a spot if it leads to a note of the object, to a variable, or to an
entry that the base value has (`Sighting.At`). What is read under such a name is what is at
the spot, converted if the name is that of an alias with a conversion; and what is written
under such a name is written at the spot, and nowhere else.
-/
namespace DynamicMembers

/-! ## Members that keep nothing for themselves -/

/-- What is found is stored, or it keeps nothing for itself: to hand it out makes no place. -/
def Sighting.Steady (x : Sighting) : Prop :=
  x.origin = .stored ∨ x.member.kind.cell? = none ∧ x.member.kind.list? = none

/-- What is found of the object is at the spot: a note that is stored, a variable, or an entry that
the base value has. -/
structure Sighting.At (s : Store) (o : ObjectId) (x : Sighting) (spot : Spot) : Prop where
  kind : x.member.kind.spot? = some spot
  stored : ∀ c, spot = .note c → x.origin = .stored
  entry : ∀ base key, spot = .entry base key →
    (∃ state, s.object? o = some state ∧ state.base = base) ∧ (spot.content? s).isSome

section

variable {s t : Store} {o : ObjectId} {x : Sighting} {spot : Spot} {m : Member}

theorem Member.reference?_of_spot? (h : m.kind.spot? = some spot) : m.reference? = none := by
  rw [Member.reference?_eq_none_iff]
  intro reference conversion hm
  rw [hm] at h
  cases h

/-- No conversion is made where a spot is read. -/
theorem Member.answersItself_of_spot? {env : Environment} (h : m.kind.spot? = some spot) :
    m.answersItself env s = true := by
  rcases spot?_cases h with ⟨_, hm, -⟩ | ⟨_, hm, -⟩ | ⟨_, _, _, hm, -⟩ <;> rw [answersItself, hm]

theorem Sighting.steady_of_reference? {reference : String}
    (h : x.member.reference? = some reference) : x.Steady := by
  obtain ⟨conversion, hkind⟩ := Member.reference?_eq_some_iff.mp h
  exact .inr (by rw [hkind]; exact ⟨rfl, rfl⟩)

namespace Sighting.At

theorem steady (h : x.At s o spot) : x.Steady := by
  rcases Member.spot?_cases h.kind with ⟨c, -, hspot⟩ | ⟨target, hm, -⟩ | ⟨_, _, _, hm, -⟩
  · exact .inl (h.stored c hspot)
  · exact .inr (by rw [hm]; exact ⟨rfl, rfl⟩)
  · exact .inr (by rw [hm]; exact ⟨rfl, rfl⟩)

theorem content?_isSome (h : x.At s o spot) : (spot.content? s).isSome := by
  cases spot with
  | note c => rfl
  | slot c => rfl
  | entry base key => exact (h.entry base key rfl).2

/-- As long as the entry is not gone. -/
theorem later (h : x.At s o spot) (hobjects : t.objects = s.objects)
    (hcontent : (spot.content? t).isSome) : x.At t o spot where
  kind := h.kind
  stored := h.stored
  entry base key hspot := by
    obtain ⟨⟨state, ho, hbase⟩, -⟩ := h.entry base key hspot
    exact ⟨⟨state, by rwa [Store.object?_congr hobjects], hbase⟩, hcontent⟩

end Sighting.At

theorem Store.run_copyFor_of_bare (hc : m.kind.cell? = none) (hl : m.kind.list? = none)
    (owner : Option ObjectId) (s : Store) : (copyFor owner m).run s =
      (⟨.made s.made, m.name, m.flags, owner, m.kind⟩, s.after nextMemberId) := by
  show (copyWithin owner (s.lists.size + 1) m).run s = _
  rcases copyKind_cases (copyWithin owner s.lists.size) m.kind s with
    ⟨c, _, hsome, -⟩ | ⟨l, _, -, hsome, -⟩ | ⟨-, -, hrun⟩
  · cases hc.symm.trans hsome
  · cases hl.symm.trans hsome
  · exact run_copyWithin_succ hrun

/-- To hand out such a member changes nothing but the count, and keeps what kind it is. -/
theorem View.run_handOut_of_steady (v : View) (h : x.Steady) (s : Store) :
    ∃ m t, (v.handOut x).run s = (m, t) ∧ s.OnlyCounts t ∧ m.kind = x.member.kind ∧
      x.member.IsCopy (v.ownerFor x) m := by
  suffices hcounts : s.OnlyCounts (s.after (v.handOut x)) ∧
      ((v.handOut x).run s).1.kind = x.member.kind from
    ⟨_, _, rfl, hcounts.1, hcounts.2, v.isCopy_handOut x s⟩
  unfold Store.after handOut
  rcases h with horigin | ⟨hc, hl⟩
  · rw [horigin]
    exact ⟨Store.Coherent.refl s, rfl⟩
  · have hcopy (owner : Option ObjectId) : s.OnlyCounts ((Store.copyFor owner x.member).run s).2 ∧
        ((Store.copyFor owner x.member).run s).1.kind = x.member.kind := by
      rw [Store.run_copyFor_of_bare hc hl]
      exact ⟨Store.OnlyCounts.nextMemberId s, rfl⟩
    cases x.origin with
    | reserved which =>
      cases which with
      | adapted => exact ⟨Store.OnlyCounts.nextMemberId s, rfl⟩
      | _ => exact ⟨Store.Coherent.refl s, rfl⟩
    | stored => exact ⟨Store.Coherent.refl s, rfl⟩
    | declared => exact hcopy _
    | supplied => exact hcopy _

end

namespace Store

variable {adapter : Adapter} {s t : Store} {o : ObjectId} {name : String} {x : Sighting}
  {spot : Spot} {v w : Value}

/-! ## What counting leaves alone -/

namespace OnlyCounts

theorem find? (h : s.OnlyCounts t) (adapter : Adapter) (view : View) (name : String) :
    view.find? adapter t name = view.find? adapter s name := by
  rw [h.rest]
  rfl

theorem content? (h : s.OnlyCounts t) (spot : Spot) : spot.content? t = spot.content? s :=
  Spot.content?_congr (congrFun h.cell _)

theorem put (h : s.OnlyCounts t) (hspot : (spot.content? s).isSome) (v : Value) :
    (spot.put s v).OnlyCounts (spot.put t v) := by
  cases spot with
  | note c => exact h.setCell c v
  | slot c => exact h.setCell c v
  | entry base key =>
    obtain ⟨w, hw⟩ := Option.isSome_iff_exists.mp hspot
    obtain ⟨entries, hbase, -⟩ := Spot.content?_entry_eq_some_iff.mp hw
    rw [Spot.put_entry hbase, Spot.put_entry ((congrFun h.cell base).trans hbase)]
    exact h.setCell base _

end OnlyCounts

/-! ## The way to a spot -/

def OwnsShown (adapter : Adapter) (s : Store) (o : ObjectId) : Prop :=
  ∀ name x, (View.ofObject o).find? adapter s name = some x →
    (View.ofObject o).ownerFor x = some o

/-- A name that leads to a member is the name of one of the same kind, or that of an alias which
resolves to it. -/
theorem exists_get?_of_leadsTo (hs : s.Reachable) (halive : s.isAlive o = true)
    (howns : s.OwnsShown adapter o) (h : s.LeadsTo adapter o name x) (hx : x.Steady) :
    ∃ m u, ((View.ofObject o).get? adapter name).run s = (some m, u) ∧ s.OnlyCounts u ∧
      sameName m.name name = true ∧ (m.kind = x.member.kind ∨ ∃ reference conversion,
        m.kind = .aliasOf reference conversion ∧
          u.aliasTarget adapter m reference = .ok (o, x)) := by
  have hget {y : Sighting} (hy : (View.ofObject o).find? adapter s name = some y)
      (hsteady : y.Steady) : ∃ m u, ((View.ofObject o).get? adapter name).run s = (some m, u) ∧
        s.OnlyCounts u ∧ sameName m.name name = true ∧ m.kind = y.member.kind ∧
        m.owner = some o := by
    obtain ⟨m, u, hrun, hcounts, hkind, hcopy⟩ := (View.ofObject o).run_handOut_of_steady hsteady s
    refine ⟨m, u, View.run_get?_of_find? hy hrun, hcounts, ?_, hkind,
      hcopy.owner.trans (howns name y hy)⟩
    rw [hcopy.name]
    exact View.sameName_of_find? hs.wellNamed hy
  rcases h.cases_find? with ⟨hfind, -⟩ | ⟨y, reference, hy, hreference, hleads⟩
  · obtain ⟨m, u, hrun, hcounts, hname, hkind, -⟩ := hget hfind hx
    exact ⟨m, u, hrun, hcounts, hname, .inl hkind⟩
  · obtain ⟨m, u, hrun, hcounts, hname, hkind, howned⟩ :=
      hget hy (Sighting.steady_of_reference? hreference)
    obtain ⟨conversion, halias⟩ := Member.reference?_eq_some_iff.mp hreference
    refine ⟨m, u, hrun, hcounts, hname, .inr ⟨reference, conversion, hkind.trans halias, ?_⟩⟩
    have hsame := hcounts.find? adapter (View.ofObject o)
    refine aliasTarget_of_leadsTo (hs.steps hcounts.steps) ?_ ?_ ((leadsTo_congr hsame).mpr hleads)
    · rw [ownerOf, howned, isAlive_congr hcounts.objects, Option.filter_some, if_pos halive]
    · rw [next?_congr (hs.steps hcounts.steps) hname, next?_eq, hsame, hy]
      exact hreference

section

variable {env : Environment} (henv : env.adapter = .bag) (hs : s.Reachable)
  (halive : s.isAlive o = true) (howns : s.OwnsShown env.adapter o)
  (h : s.LeadsTo env.adapter o name x) (hx : x.At s o spot)
include henv hs halive howns h hx

/-- What is read under a name that leads to a spot is there, but for a conversion, and the answer
is that of the conversion. -/
theorem value?_of_leadsTo (hv : spot.content? s = some v) :
    ∃ m u, ((View.ofObject o).get? env.adapter name).run s = (some m, u) ∧
      sameName m.name name = true ∧
      (m.value? env u).map (·.1) = m.rendering? (s.text? env.adapter) v := by
  obtain ⟨m, u, hrun, hcounts, hname, hkind | ⟨reference, conversion, hkind, htarget⟩⟩ :=
    exists_get?_of_leadsTo hs halive howns h hx.steady
  · have hspot : m.kind.spot? = some spot := hkind ▸ hx.kind
    have hlast := Member.reference?_of_spot? hspot
    refine ⟨m, u, hrun, hname, ?_⟩
    rw [Member.value?_of_reference?_eq_none hlast (Member.answersItself_of_spot? hspot),
      Member.rendering?_of_reference?_eq_none hlast,
      Member.run_valueItself_of_spot? henv hspot ((hcounts.content? spot).trans hv)]
    rfl
  · obtain ⟨target, t, hhand, hcounts', hkind', -⟩ :=
      (View.ofObject o).run_handOut_of_steady hx.steady u
    have hboth := Coherent.trans hcounts hcounts'
    have hspot : target.kind.spot? = some spot := hkind' ▸ hx.kind
    refine ⟨m, u, hrun, hname, ?_⟩
    rw [Member.value?_alias hkind htarget hhand (Member.answersItself_of_spot? hspot)
      (Member.run_valueItself_of_spot? henv hspot ((hboth.content? spot).trans hv)), hboth.text?,
      Option.map_map]
    exact Option.map_id'

/-- What is written under a name that leads to a spot is written there. -/
theorem onlyCounts_of_run_setValue {m : Member} {u : Store}
    (hget : ((View.ofObject o).get? env.adapter name).run s = (some m, u))
    (hset : (m.setValue env v).run.run u = (.ok (), t)) : (spot.put s v).OnlyCounts t := by
  have hcontent := hx.content?_isSome
  obtain ⟨m', u', hrun, hcounts, -, hcases⟩ :=
    exists_get?_of_leadsTo hs halive howns h hx.steady
  obtain ⟨⟨⟩, rfl⟩ := Prod.mk.inj (hget.symm.trans hrun)
  rcases hcases with hkind | ⟨reference, conversion, hkind, htarget⟩
  · have hspot : m.kind.spot? = some spot := hkind ▸ hx.kind
    rw [Member.setValue_of_reference?_eq_none (Member.reference?_of_spot? hspot)] at hset
    rw [Member.eq_put_of_run_setValueItself henv hspot (by rwa [hcounts.content?]) hset]
    exact hcounts.put hcontent v
  · obtain ⟨target, t', hhand, hcounts', hkind', -⟩ :=
      (View.ofObject o).run_handOut_of_steady hx.steady u
    have hboth := Coherent.trans hcounts hcounts'
    rw [Member.run_setValue_alias hkind htarget hhand] at hset
    rw [Member.eq_put_of_run_setValueItself henv (hkind' ▸ hx.kind)
      (by rwa [hboth.content?]) hset]
    exact hboth.put hcontent v

end

end Store

end DynamicMembers
