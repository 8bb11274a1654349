import DynamicMembers.Proofs.View.Groupings
import DynamicMembers.Proofs.View.Owners

/-! # Grouping members in the course of time

A grouping member is asked for by way of its object, under its name. Whoever asks again gets
the same one, except for the one that is made anew every time; from a grouping member come its
copies, and members with other marks. Whatever is done in between, each of them lists what its
owner has at the moment (`World.Reachable.keepsGrouping`): of what it is made, only identity,
owner and marks ever change.
-/
namespace DynamicMembers

/-! ## One of many that are made -/

theorem Store.exists_run_of_mem_mapM {α β : Type} {R : Store → Store → Prop} [Coherent R]
    {f : α → StateM Store β} (hf : ∀ a, Within R (f a)) {as : List α} {s : Store} {b : β}
    (hb : b ∈ ((as.mapM f).run s).1) :
    ∃ a ∈ as, ∃ u, R s u ∧ ((f a).run u).1 = b ∧ R (u.after (f a)) (s.after (as.mapM f)) := by
  induction as generalizing s with
  | nil => cases hb
  | cons a as ih =>
    rw [List.mapM_cons] at hb ⊢
    rcases List.mem_cons.mp hb with rfl | hb
    · exact ⟨a, List.mem_cons_self, s, Coherent.refl s, rfl, Within.mapM hf as _⟩
    · obtain ⟨a', ha', u, hu, hrun, hlast⟩ := ih hb
      exact ⟨a', List.mem_cons_of_mem a ha', u, Coherent.trans (hf a s) hu, hrun, hlast⟩

namespace World

/-- The grouping member of the object is asked for: itself, or under its name from any view that
shows the grouping members of that object among others. -/
inductive Requests (w : World) (o : ObjectId) (view : ReservedView) : Member → Store → Prop
  | itself {m : Member} {t : Store} (ho : o.index < w.store.objects.size)
      (h : ((View.ofObject o).handOut ⟨.reserved o view.member, .reserved view.member⟩).run
        w.store = (m, t)) : Requests w o view m t
  | named {adapter : Adapter} {v : View} {m : Member} {t : Store} (hv : w.Sees v)
      (ho : v.owner? = some o) (hscope : ∀ other owner, v.scope ≠ .grouping other owner)
      (h : v.Returns adapter w.store m t) (hname : sameName m.name view.name = true) :
      Requests w o view m t

/-- What comes of a member by and by: copies of it for the same owner or another, and members with
a mark set or cleared. -/
inductive Descends (w : World) (m : Member) : World → Member → Option ObjectId → Prop
  | same : Descends w m w m m.owner
  | copied {w' : World} {c d : Member} {owner : Option ObjectId} {t : Store}
      (h : Descends w m w' c owner) (other : Option ObjectId)
      (hrun : (Store.copyFor other c).run w'.store = (d, t)) :
      Descends w m (w'.receive d t) d other
  | marked {w' : World} {c : Member} {owner : Option ObjectId} (h : Descends w m w' c owner)
      (flag : MemberFlag) (on : Bool) :
      Descends w m { w' with members := c.setFlag flag on :: w'.members } (c.setFlag flag on) owner
  | later {w' w'' : World} {c : Member} {owner : Option ObjectId} (h : Descends w m w' c owner)
      (hw : Acts w' w'') : Descends w m w'' c owner

/-- What is true of a grouping member of the object from the moment that it was asked for. -/
structure KeepsGrouping (w : World) (o : ObjectId) (view : ReservedView) (m : Member) : Prop where
  /-- Who asks again gets the same, but for the one that is made anew each time. -/
  asked_again : ∀ {w' : World} {m' : Member} {t' : Store}, Acts w w' →
    w'.Requests o view m' t' → m'.IsGrouping o view.member ∧ (m' = m ↔ view ≠ .adapted)
  owner : m.owner = some o
  /-- Whatever has come of it lists what its owner has now. -/
  groups : ∀ {w' : World} {c : Member} {owner : Option ObjectId}, w.Descends m w' c owner →
    ∃ v, View.ofMember? w'.store c = some v ∧
      ∀ adapter : Adapter, v.GroupsExactly adapter w'.store owner view

end World

/-! ## Requests -/

theorem ReservedView.eq_member_of_sameName {view : ReservedView} {which : ReservedMember}
    (h : sameName view.name which.name = true) : which = view.member := by
  revert h
  cases view <;> cases which <;> decide

namespace View

variable {adapter : Adapter} {s : Store} {v : View} {x : Sighting}

theorem not_exposes (hscope : ∀ view owner, v.scope ≠ .grouping view owner) (row : AdapterRow) :
    ¬ v.Exposes adapter s row := by
  intro h
  have hrows : v.bareRows adapter s = [] := by
    unfold bareRows
    split
    next owner hv => exact absurd hv (hscope _ owner)
    next view owner _ hv => exact absurd hv (hscope view owner)
    next => rfl
  have hfirst := h.first
  rw [hrows] at hfirst
  cases hfirst

theorem not_supplied_of_shows (hs : s.WellNamed)
    (hscope : ∀ view owner, v.scope ≠ .grouping view owner) (hx : v.Shows adapter s x)
    (hname : isReservedName x.name = true) : x.origin ≠ .supplied := by
  intro horigin
  have hfound {v : View} (hscope : ∀ view owner, v.scope ≠ .grouping view owner) {name : String}
      (hfind : v.find? adapter s name = some x) : False := by
    have hname' := (isReservedName_congr (sameName_of_find? hs hfind)).symm.trans hname
    obtain ⟨row, hrow, -⟩ := exists_exposes_of_find? hs hname' hfind horigin
    exact not_exposes hscope row hrow
  cases hx with
  | found h => exact hfound hscope h
  | such h => cases (not_supplied_of_firstSuch? h horigin).symm.trans hname
  | listed h => exact hfound (v := v.withMask .all) hscope ((mem_union_iff hs).mp h)

/-- A view that is not that of a grouping member has nothing but grouping members under their
names. -/
theorem reserved_of_shows (hs : s.WellNamed)
    (hscope : ∀ view owner, v.scope ≠ .grouping view owner) (hx : v.Shows adapter s x)
    (hname : isReservedName x.name = true) :
    ∃ o which, v.owner? = some o ∧ x = ⟨.reserved o which, .reserved which⟩ := by
  have hsupplied := not_supplied_of_shows hs hscope hx hname
  have hstored {l : MemberList} (hl : l.WellNamed) (hm : x.member ∈ l.members) : False := by
    cases (hl.unreserved_of_mem hm).symm.trans hname
  cases draws_of_shows hx with
  | @reserved o which ho => exact ⟨o, which, ho, rfl⟩
  | stored hl hm => exact (hstored (hs.lists _) hm).elim
  | inherited ho hstate hm => exact (hstored (hs.lists _) hm).elim
  | declared ho hentry hm => exact (hstored (hs.types _ hentry) hm).elim
  | supplied => exact absurd rfl hsupplied

theorem find?_ofObject_reserved (adapter : Adapter) (s : Store) (o : ObjectId)
    (view : ReservedView) : (ofObject o).find? adapter s view.name =
      some ⟨.reserved o view.member, .reserved view.member⟩ := by
  have hname : ReservedMember.ofName? view.name = some view.member := by
    cases view <;> decide
  have hreserved : isReservedName view.name = true := by
    rw [isReservedName_eq_isSome, hname]
    rfl
  show ((ofObject o).withMask .all).find? adapter s view.name = _
  rw [find?_reserved hreserved]
  show ((ReservedMember.ofName? view.name).map _).filter _ = _
  rw [hname]
  exact Option.filter_some_pos (TypeMask.all_admits _)

end View

namespace World

variable {w : World} {o : ObjectId} {view : ReservedView} {m : Member} {t : Store}

/-- What is asked for itself is found under its name. -/
theorem Requests.returned (h : w.Requests o view m t) : ∃ (adapter : Adapter) (v : View),
    w.Sees v ∧ v.owner? = some o ∧ (∀ other owner, v.scope ≠ .grouping other owner) ∧
      v.Returns adapter w.store m t ∧ sameName m.name view.name = true := by
  cases h with
  | itself ho h =>
    have hfind := View.find?_ofObject_reserved .bag w.store o view
    have hget : ((View.ofObject o).get? .bag view.name).run w.store = (some m, t) := by
      show ((View.ofObject o).handOut? ((View.ofObject o).find? .bag w.store view.name)).run
        w.store = _
      rw [hfind]
      exact congrArg (fun made : Member × Store => (some made.1, made.2)) h
    have hname : m.name = view.name := by
      have hcopy := View.isCopy_handOut (View.ofObject o)
        ⟨.reserved o view.member, .reserved view.member⟩ w.store
      rw [h] at hcopy
      exact hcopy.name
    exact ⟨.bag, View.ofObject o, .object ho .all, rfl, nofun, .got hget,
      sameName_iff.mpr (by rw [hname])⟩
  | named hv ho hscope h hname => exact ⟨_, _, hv, ho, hscope, h, hname⟩

/-- Whoever asks has what is handed out for the grouping member, made after the request. -/
theorem Requests.exists_handOut (hs : w.store.WellNamed) (h : w.Requests o view m t) :
    ∃ (v : View) (u : Store), w.store.Enlarges u ∧
      ((v.handOut ⟨.reserved o view.member, .reserved view.member⟩).run u).1 = m ∧
      (u.after (v.handOut ⟨.reserved o view.member, .reserved view.member⟩)).Enlarges t := by
  obtain ⟨adapter, v, hv, ho, hscope, hreturns, hname⟩ := h.returned
  obtain ⟨xs, members, hxs, hrun, hm⟩ := hreturns.shows
  have hmade : m ∈ ((xs.mapM v.handOut).run w.store).1 := by
    rw [hrun]
    exact hm
  obtain ⟨x, hx, u, hu, rfl, hlast⟩ := Store.exists_run_of_mem_mapM v.enlarges_handOut hmade
  have hxname : sameName view.name x.name = true := by
    rw [sameName_comm, Sighting.name, ← (v.isCopy_handOut x u).name]
    exact hname
  have hreserved : isReservedName x.name = true := by
    rw [← isReservedName_congr hxname]
    cases view <;> decide
  obtain ⟨o', which, ho', rfl⟩ := View.reserved_of_shows hs hscope (hxs x hx) hreserved
  obtain rfl : o' = o := Option.some.inj (ho'.symm.trans ho)
  obtain rfl := ReservedView.eq_member_of_sameName hxname
  have hafter : w.store.after (xs.mapM v.handOut) = t := congrArg Prod.snd hrun
  rw [hafter] at hlast
  exact ⟨v, u, hu, rfl, hlast⟩

theorem Requests.isGrouping (hs : w.store.WellNamed) (h : w.Requests o view m t) :
    m.IsGrouping o view.member := by
  obtain ⟨v, u, -, rfl, -⟩ := h.exists_handOut hs
  exact View.handOut_reserved rfl u

/-- The same member is there for all requests. -/
theorem Requests.eq_reserved (hs : w.store.WellNamed) (h : w.Requests o view m t)
    (hview : view ≠ .adapted) : m = Member.reserved o view.member := by
  obtain ⟨v, u, -, rfl, -⟩ := h.exists_handOut hs
  cases view with
  | adapted => exact absurd rfl hview
  | base | extended | object => rfl

/-- The identity was not there before the request, and is there from then on. -/
theorem Requests.exists_serial (hs : w.store.WellNamed) (h : w.Requests o .adapted m t) :
    ∃ n, m.id = .made n ∧ ¬ w.store.Has (.serial n) ∧ t.Has (.serial n) := by
  obtain ⟨v, u, hu, rfl, hlast⟩ := h.exists_handOut hs
  refine ⟨u.made, rfl, fun hthere => Nat.lt_irrefl _ (hu.has hthere), hlast.has ?_⟩
  exact Nat.lt_succ_self u.made

theorem Requests.steps (h : w.Requests o view m t) : Store.Steps w.store t := by
  obtain ⟨adapter, v, -, -, -, hreturns, -⟩ := h.returned
  obtain ⟨xs, members, -, hrun, -⟩ := hreturns.shows
  have hsteps := Store.Within.mapM (R := Store.Steps) v.within_handOut xs w.store
  rwa [Store.after, hrun] at hsteps

theorem Requests.continues {Γ : Ledger} (hw : w.Sound Γ) (h : w.Requests o view m t) :
    ∃ Δ, Continues Γ w Δ (w.receive m t) := by
  obtain ⟨adapter, v, hv, -, -, hreturns, -⟩ := h.returned
  exact hw.receive hv hreturns

theorem Requests.again {w' : World} {m' : Member} {t' : Store} (hw : w.Reachable)
    (h : w.Requests o view m t) (hacts : Acts (w.receive m t) w')
    (h' : w'.Requests o view m' t') : m'.IsGrouping o view.member ∧ (m' = m ↔ view ≠ .adapted) := by
  have hs' : w'.store.Reachable :=
    (hw.store.steps h.steps).steps (hacts.lift' World.store fun _ _ => Act.steps)
  refine ⟨h'.isGrouping hs'.wellNamed, ?_, fun hview => ?_⟩
  · rintro rfl rfl
    obtain ⟨n, hid, -, hthere⟩ := h.exists_serial hw.store.wellNamed
    obtain ⟨n', hid', hnew, -⟩ := h'.exists_serial hs'.wellNamed
    obtain ⟨Γ, hsound, hΓ⟩ := hw.sound
    obtain ⟨Δ, hΔ⟩ := h.continues hsound
    obtain ⟨Θ, hΘ⟩ := hΔ.sound.acts (hΓ.agree hΔ.agrees) hacts
    obtain rfl : n = n' := by
      rw [hid] at hid'
      cases hid'
      rfl
    exact hnew (hΘ.onward.has hthere)
  · rw [h.eq_reserved hw.store.wellNamed hview, h'.eq_reserved hs'.wellNamed hview]

/-! ## What comes of a grouping member -/

/-- Of what has nothing for itself, only identity, owner and marks change. -/
theorem Descends.kind_owner {w' : World} {c : Member} {owner : Option ObjectId}
    (hs : w.store.Reachable) (hc : m.kind.cell? = none) (hl : m.kind.list? = none)
    (h : w.Descends m w' c owner) :
    w'.store.Reachable ∧ c.kind = m.kind ∧ c.owner = owner := by
  induction h with
  | same => exact ⟨hs, rfl, rfl⟩
  | @copied w' c d owner t _ other hrun ih =>
    obtain ⟨hs', hkind, -⟩ := ih
    have hcopy := Store.isCopy_copyFor other c w'.store
    have hstep := Store.Step.copyFor (s := w'.store) other c
    rw [hrun] at hcopy
    rw [Store.after, hrun] at hstep
    refine ⟨hs'.steps (.single hstep), ?_, hcopy.owner⟩
    rw [← hkind] at hc hl ⊢
    exact MemberKind.eq_of_form hc hl hcopy.form
  | marked _ flag on ih => exact ih
  | later _ hacts ih =>
    exact ⟨ih.1.steps (hacts.lift' World.store fun _ _ => Act.steps), ih.2⟩

/-- Grouping members show what their owners have whenever they are asked, and whatever has been
done before. -/
theorem Reachable.keepsGrouping (hw : w.Reachable) (h : w.Requests o view m t) :
    (w.receive m t).KeepsGrouping o view m where
  asked_again hacts h' := h.again hw hacts h'
  owner := by rw [h.isGrouping hw.store.wellNamed]; rfl
  groups {w' c owner} hc := by
    have hkind : m.kind = .memberSet (.reserved view) false := by
      rw [h.isGrouping hw.store.wellNamed]
      cases view <;> rfl
    obtain ⟨hs', hckind, howner⟩ := hc.kind_owner (hw.store.steps h.steps)
      (by rw [hkind]; rfl) (by rw [hkind]; rfl)
    have hview : View.ofMember? w'.store c =
        some ⟨.grouping view (owner.filter w'.store.isAlive), .all⟩ := by
      rw [View.ofMember?, hckind, hkind, Store.ownerOf, howner]
    exact ⟨_, hview, fun adapter => View.groupsExactly_grouping hs' adapter view owner⟩

/-! ## An example -/

def boxed : World :=
  sized.withStore (sized.store.after
    (Store.wrapAs (.map [("Key", .int 1), ("SIZE", .null)]) ["Box"]))

def boxGroup : Member := .reserved ⟨0⟩ .object

def boxAsked : World := boxed.receive boxGroup boxed.store

def boxFilled : World :=
  boxAsked.gain ((View.ofObject ⟨0⟩).add looseSize false).run returned

def boxGroupCopy : Member := ((Store.copy boxGroup).run boxFilled.store).1

def boxCopied : World :=
  boxFilled.receive boxGroupCopy (boxFilled.store.after (Store.copy boxGroup))

theorem reachable_boxed : boxed.Reachable :=
  ⟨#[], by simp, acts_of_changes (changes_of_deeds (deeds_sized.tail
    (.wrap (by simp [Knows, Value.members, Value.entryMembers]) ["Box"])))⟩

theorem boxGroupCopy_descends : boxAsked.Descends boxGroup boxCopied boxGroupCopy (some ⟨0⟩) := by
  have hheld : looseSize ∈ boxAsked.members := by decide +kernel
  have hadd : Act boxAsked boxFilled :=
    .change (.deed (.add (.object (by decide +kernel) .all) hheld false))
  exact .copied (.later .same (.single hadd)) (some ⟨0⟩) rfl

/-- The copy lists what was attached after the request, and leaves out the entry of that name. -/
theorem Reachable.keepsGrouping_boxed :
    boxed.Reachable ∧ boxed.Requests ⟨0⟩ .object boxGroup boxed.store ∧
    boxAsked.KeepsGrouping ⟨0⟩ .object boxGroup ∧
    boxAsked.Descends boxGroup boxCopied boxGroupCopy (some ⟨0⟩) ∧
    ((View.ofMember? boxCopied.store boxGroupCopy).map fun v =>
      ((v.members .bag).run boxCopied.store).1.map (·.name)) =
      some ["Size", "Key", "ToString", "Equals"] := by
  have hasked : boxed.Requests ⟨0⟩ .object boxGroup boxed.store := .itself (by decide +kernel) rfl
  exact ⟨reachable_boxed, hasked, reachable_boxed.keepsGrouping hasked, boxGroupCopy_descends,
    by decide +kernel⟩

end World

end DynamicMembers
