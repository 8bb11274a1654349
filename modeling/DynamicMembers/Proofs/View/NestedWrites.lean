import DynamicMembers.Proofs.View.NestedSets

/-! # Writes by way of an object

What is written in a member set that an object has for itself stays. Of a declared member
set the object shows copies only. The notes in such a copy can be written and members can
be added to it; whether either is seen afterwards is said in full by
`World.Reachable.nestedWrites`.
-/
namespace DynamicMembers

/-! ## Notes -/

namespace Member

variable {env : Environment} {m : Member} {c : CellId} {s : Store}

theorem run_value_note (h : m.kind = .note c) : (m.value env).run.run s = (.ok (s.cell c), s) := by
  have hvalue : m.value env = m.valueItself env := by
    unfold value
    rw [h]
  rw [hvalue, valueItself, Store.run_read_then, h]
  rfl

theorem run_setValue_note (h : m.kind = .note c) (v : Value) :
    (m.setValue env v).run.run s = if m.flags.attached then (.ok (), s.setCell c v)
      else (.error (.setValue m.name .sharedNote), s) := by
  have hset : m.setValue env v = m.setValueItself env v := by
    unfold setValue
    rw [h]
  rw [hset, setValueItself, Store.run_read_then, h]
  dsimp only
  split <;> rfl

end Member

/-- A note that can be written was found in a list; a note that is declared can not. -/
theorem World.Sees.stored_of_written {Γ : Ledger} {w : World} {v : View} {env : Environment}
    {inner : String} {x : Sighting} {m : Member} {c : CellId} {t u : Store} {value : Value}
    (hw : w.Sound Γ) (hv : w.Sees v) (hx : v.find? env.adapter w.store inner = some x)
    (hrun : (v.handOut x).run w.store = (m, t)) (hm : m.kind = .note c)
    (hset : (m.setValue env value).run.run t = (.ok (), u)) :
    x = ⟨m, .stored⟩ ∧ t = w.store ∧ u = w.store.setCell c value ∧
      w.store.Has (.cell c) ∧ ∀ k, Γ (.cell c) ≠ .base k := by
  have hcopy := v.isCopy_handOut x w.store
  rw [hrun] at hcopy
  have htype : x.member.type = .noteProperty := by
    rw [← hcopy.type, Member.type, hm]
    rfl
  rw [Member.run_setValue_note hm] at hset
  have hattached : x.member.flags.attached = true := by
    rw [← hcopy.flags]
    by_cases hflag : m.flags.attached = true
    · exact hflag
    · rw [if_neg hflag] at hset
      cases hset
  have hdraws := View.draws_of_find? hx
  have hstored (horigin : x.origin = .stored) : x = ⟨m, .stored⟩ ∧ t = w.store ∧
      u = w.store.setCell c value ∧ w.store.Has (.cell c) ∧ ∀ k, Γ (.cell c) ≠ .base k := by
    obtain ⟨member, origin⟩ := x
    cases horigin
    cases hrun
    rw [if_pos hattached] at hset
    cases hset
    obtain ⟨_, hkind⟩ := Member.Genuine.exists_kind (hv.fits hw hdraws)
    have hc : member.kind.cell? = some c := congrArg MemberKind.cell? hm
    obtain ⟨hthere, howned⟩ := hkind.own (.cell c) (MemberKind.cell_mem_own.mpr hc)
    exact ⟨rfl, rfl, rfl, hthere, by simp [howned]⟩
  cases hdraws with
  | @reserved o which ho => cases which <;> cases htype
  | stored => exact hstored rfl
  | inherited => exact hstored rfl
  | @declared o entry m' ho hentry hm' =>
    rw [(hw.store.types entry hentry m' hm').detached] at hattached
    cases hattached
  | supplied ho hstate hrow => exact absurd htype (AdapterRow.type_of_toMember? hrow).2

/-! ## Writes and additions -/

namespace View

/-- The member set under the first name is declared, and so is a member under the second in it. -/
def DeclaresIn (adapter : Adapter) (s : Store) (o : ObjectId) (name inner : String) : Prop :=
  ∃ template l, DeclaresSet adapter s o name template l ∧ ((s.list l).find? inner).isSome = true

/-- What becomes of a write to a note in a member set of the object: the next look-up shows it,
unless the note is declared with its set. Then the value is as it was before. -/
def RereadsExactly (env : Environment) (s : Store) (o : ObjectId) (name inner : String) : Prop :=
  ∀ m t c v u, (nestedGet? env.adapter o name inner).run s = (some m, t) → m.kind = .note c →
    (m.setValue env v).run.run t = (.ok (), u) →
    ∃ again t' seen, (nestedGet? env.adapter o name inner).run u = (some again, t') ∧
      (again.value env).run.run t' = (.ok seen, t') ∧
      (DeclaresIn env.adapter s o name inner → (m.value env).run.run t = (.ok seen, t)) ∧
      (¬ DeclaresIn env.adapter s o name inner → seen = v)

/-- What becomes of an addition to a member set of the object: the next look-up finds a member
under the name, unless the set is declared and had none under it before. -/
def RefindsExactly (adapter : Adapter) (s : Store) (o : ObjectId) (name : String) : Prop :=
  ∀ v t m vouched added u, (nested? adapter o name).run s = (some v, t) →
    (v.add m vouched).run.run t = (.ok added, u) →
    (((nestedGet? adapter o name m.name).run u).1.isSome = true ↔
      (∀ template l, ¬ DeclaresSet adapter s o name template l) ∨
        (v.find? adapter t m.name).isSome = true)

/-- Every write to a note in a member set of the object is seen at the next look-up. -/
def Rereads (env : Environment) (s : Store) (o : ObjectId) (name inner : String) : Prop :=
  ∀ m t c v u, (nestedGet? env.adapter o name inner).run s = (some m, t) → m.kind = .note c →
    (m.setValue env v).run.run t = (.ok (), u) →
    ∃ again t', (nestedGet? env.adapter o name inner).run u = (some again, t') ∧
      (again.value env).run.run t' = (.ok v, t')

/-- Every addition to a member set of the object is found at the next look-up. -/
def Refinds (adapter : Adapter) (s : Store) (o : ObjectId) (name : String) : Prop :=
  ∀ v t m vouched added u, (nested? adapter o name).run s = (some v, t) →
    (v.add m vouched).run.run t = (.ok added, u) →
    ((nestedGet? adapter o name m.name).run u).1.isSome = true

variable {adapter : Adapter} {s t : Store} {o : ObjectId} {name inner : String} {v : View}
  {m : Member}

theorem run_nestedGet?_of_stored (hnested : (nested? adapter o name).run s = (some v, t))
    (hfind : v.find? adapter t inner = some ⟨m, .stored⟩) :
    (nestedGet? adapter o name inner).run s = (some m, t) := by
  rw [run_nestedGet?_of_nested? hnested]
  exact run_get?_of_find? hfind rfl

theorem isSome_nestedGet? (hnested : (nested? adapter o name).run s = (some v, t)) :
    ((nestedGet? adapter o name inner).run s).1.isSome = (v.find? adapter t inner).isSome := by
  rw [run_nestedGet?_of_nested? hnested]
  show ((v.handOut? (v.find? adapter t inner)).run t).1.isSome = _
  cases v.find? adapter t inner <;> rfl

/-- An addition that was done has put a member of the name into the list of the view, and changed
nothing else that was there. -/
theorem of_run_add {added : Member} {vouched : Bool} {u : Store}
    (h : (v.add m vouched).run.run s = (.ok added, u)) :
    v.addRefusal? s m vouched = none ∧ u.objects = s.objects ∧ u.types = s.types ∧
      ∃ l, v.list? s = some l ∧ s.Keeps (· ≠ .list l) u ∧
        (s.Has (.list l) → u.Has (.list l) ∧ (u.list l).find? m.name = some added) := by
  cases hrefusal : v.addRefusal? s m vouched with
  | some refusal =>
    rw [add_of_refusal hrefusal] at h
    cases h
  | none =>
    cases hl : v.list? s with
    | none =>
      rw [add_of_no_list hrefusal hl] at h
      cases h
    | some l =>
      have hname := (Store.isCopy_copyFor (v.owner?.or m.owner) m s).name
      have hcopied := Store.enlarges_copyFor (v.owner?.or m.owner) m s
      obtain ⟨⟨copy, t⟩, hcopy⟩ :
        ∃ made, (Store.copyFor (v.owner?.or m.owner) m).run s = made := ⟨_, rfl⟩
      rw [Store.after, hcopy] at hcopied
      rw [hcopy] at hname
      obtain ⟨replaced, members, hadd, hrun⟩ := run_add hrefusal hl hcopy
      obtain ⟨announced, hannounced⟩ := v.exists_announced copy.name (t.setList l members)
      rw [hrun, hannounced] at h
      obtain ⟨hadded, rfl⟩ := Prod.mk.inj h
      cases hadded
      refine ⟨rfl, hcopied.objects, hcopied.types, l, rfl,
        (hcopied.keeps.weaken fun _ _ => trivial).trans
          (.setList_announced (fun k hk hkl => hk (by rw [hkl])) members announced),
        fun hthere => ?_⟩
      have hlist : Store.list { t.setList l members with announced := announced } l = members :=
        Store.list_setList_self members (hcopied.has hthere)
      refine ⟨Store.has_setList.mpr (hcopied.has hthere), ?_⟩
      rw [hlist, ← hname]
      exact MemberList.find?_of_add hadd

end View

namespace World
open View

variable {Γ : Ledger} {w : World} {o : ObjectId} {name inner : String} {v : View} {t : Store}
  {env : Environment} {adapter : Adapter}

/-- The member set that was looked up is held, and can be looked at. -/
theorem Sound.holds_nested (hw : w.Sound Γ) (ho : o.index < w.store.objects.size)
    (h : (nested? adapter o name).run w.store = (some v, t)) :
    ∃ (Δ : Ledger) (w' : World), w'.Sound Δ ∧ w'.store = t ∧ w'.Sees v ∧ w.store.Enlarges t := by
  obtain ⟨x, group, hx, hrun, hv⟩ := exists_group_of_nested? h
  have ht := enlarges_handOut (ofObject o) x w.store
  rw [Store.after, hrun] at ht
  have hreturns : ((ofObject o).withMask .all).Returns adapter w.store group t :=
    .got (run_get?_of_find? hx hrun)
  obtain ⟨Δ, hΔ⟩ := hw.receive (.object ho .all) hreturns
  refine ⟨Δ, w.receive group t, hΔ.sound, rfl, ?_, ht⟩
  have hsees : (w.receive group t).Sees (v.withMask .all) := .member List.mem_cons_self hv .all
  rwa [withMask_of_ofMember? hv] at hsees

/-- In a member set that lasts, the note is there with what was written. -/
theorem Sees.reread_of_lasts {m : Member} {c : CellId} {value : Value} (hw : w.Sound Γ)
    (hv : w.Sees v) (hlasts : ∃ t, (nested? adapter o name).run (w.store.setCell c value) =
      (some v, t) ∧ (w.store.setCell c value).Enlarges t)
    (hx : v.find? adapter w.store inner = some ⟨m, .stored⟩) (hthere : w.store.Has (.cell c))
    (hbase : ∀ k, Γ (.cell c) ≠ .base k) :
    ∃ t, (nestedGet? adapter o name inner).run (w.store.setCell c value) = (some m, t) ∧
      t.cell c = value := by
  obtain ⟨t, hagain, ht⟩ := hlasts
  have halike (k : ObjectId) : Store.ShowsAlike adapter k w.store t :=
    (Store.ShowsAlike.setCell hw.store hbase value).enlarge hw.store Store.has_setCell.mpr ht
  have hstored : v.storedLayer? t = v.storedLayer? w.store :=
    storedLayer?_congr (halike o).objects fun l hl => by
      rw [ht.list (Store.has_setCell.mpr (hv.list hw hl).1)]
      rfl
  refine ⟨t, run_nestedGet?_of_stored hagain ?_, ?_⟩
  · rw [find?_congr hstored fun k _ => halike k, hx]
  · rw [ht.cell (Store.has_setCell.mpr hthere), Store.cell_setCell_self hthere value]

/-- The note that is declared has a cell of its own. A write to a copy leaves it alone, and the
next copy has the value that is declared. -/
theorem Sound.cell_of_copies {template declared m again : Member} {l : ListId} {c : CellId}
    {value : Value} {u t' : Store} {levels more : Nat} (hw : w.Sound Γ)
    (h : DeclaresSet adapter w.store o name template l)
    (hdeclared : (w.store.list l).find? inner = some declared) (ht : w.store.Enlarges u)
    (hdeep : w.store.DeepCopy u (some o) levels declared m) (hm : m.kind = .note c)
    (hagain : (u.setCell c value).DeepCopy t' (some o) more declared again) :
    ∃ k, again.kind = .note k ∧ t'.cell k = u.cell c := by
  obtain ⟨d, hd⟩ : ∃ d, declared.kind = .note d :=
    MemberKind.exists_note_of_form (hdeep.freshCopy.form.symm.trans (congrArg _ hm))
  obtain ⟨k, hk⟩ : ∃ k, again.kind = .note k :=
    MemberKind.exists_note_of_form (hagain.freshCopy.form.trans (congrArg _ hd))
  obtain ⟨_, hlevels⟩ := h.grounded hw.store
  obtain ⟨fewer, hnested⟩ := hlevels.nested h.list?
  have hthere : w.store.Has (.cell d) :=
    (hnested declared (MemberList.mem_of_find? hdeclared)).has _
      (MemberKind.cell_mem_own.mpr (by rw [hd]; rfl))
  have hnew : ¬ w.store.Has (.cell c) := (hdeep.freshCopy.fresh _ (Member.mem_own_of_kind
    (MemberKind.cell_mem_own.mpr (by rw [hm]; rfl)))).1
  have hne : d ≠ c := by
    rintro rfl
    exact hnew hthere
  refine ⟨k, hk, ?_⟩
  calc t'.cell k = (u.setCell c value).cell d :=
        hagain.freshCopy.stored d (by rw [hd]; rfl) k (by rw [hk]; rfl)
    _ = u.cell d := Store.cell_setCell_of_ne hne value
    _ = w.store.cell d := ht.cell hthere
    _ = u.cell c := (hdeep.freshCopy.stored d (by rw [hd]; rfl) c (by rw [hm]; rfl)).symm

/-- In a declared member set, the note is another one now, or it is one of the object. -/
theorem Sound.reread_of_declares {template m : Member} {l : ListId} {c : CellId} {value : Value}
    (hw : w.Sound Γ) (h : DeclaresSet adapter w.store o name template l)
    (hnested : (nested? adapter o name).run w.store = (some v, t))
    (hx : v.find? adapter t inner = some ⟨m, .stored⟩) (hm : m.kind = .note c)
    (hthere : t.Has (.cell c))
    (hseen : Store.ShowsAlike adapter o w.store (t.setCell c value)) :
    ∃ again t' k, (nestedGet? adapter o name inner).run (t.setCell c value) = (some again, t') ∧
      again.kind = .note k ∧
      (((w.store.list l).find? inner).isSome = true → t'.cell k = t.cell c) ∧
      ((w.store.list l).find? inner = none → t'.cell k = value) := by
  obtain ⟨inherits, v', t₀, levels, hfirst, ht, -, hkind, hfound⟩ :=
    h.find?_nested hw.store (u := w.store) id (fun _ _ => rfl) ⟨rfl, rfl, fun _ _ => ⟨rfl, rfl⟩⟩
  obtain ⟨hv, rfl⟩ := Prod.mk.inj (hfirst.symm.trans hnested)
  obtain rfl : v' = v := Option.some.inj hv
  obtain ⟨inherits', v'', t', levels', hagain, ht', -, hkind', hrefound⟩ :=
    h.find?_nested hw.store (u := t₀.setCell c value) (fun hp => Store.has_setCell.mpr (ht.has hp))
      (fun k hk => ht.list hk) hseen
  obtain rfl : inherits = inherits' := by
    have := hkind.symm.trans hkind'
    simpa using this
  rcases hfound inner with ⟨hnone, hpassedOn⟩ | ⟨declared, copy, hdeclared, hcopy, hdeep⟩
  · rcases hrefound inner with ⟨-, hagainPassedOn⟩ | ⟨declared, -, hdeclared, -⟩
    · refine ⟨m, t', c, run_nestedGet?_of_stored hagain ?_, hm, fun hsome => ?_, fun _ => ?_⟩
      · rw [hagainPassedOn, ← hpassedOn, hx]
      · rw [hnone] at hsome
        cases hsome
      · rw [ht'.cell (Store.has_setCell.mpr hthere), Store.cell_setCell_self hthere value]
    · exact absurd (hnone.symm.trans hdeclared) (by simp)
  · obtain rfl : m = copy := by
      have := hx.symm.trans hcopy
      simpa using this
    rcases hrefound inner with ⟨hnone, -⟩ | ⟨declared', again, hdeclared', hagainCopy, hagainDeep⟩
    · exact absurd (hnone.symm.trans hdeclared) (by simp)
    · obtain rfl : declared = declared' := Option.some.inj (hdeclared.symm.trans hdeclared')
      obtain ⟨k, hk, hcell⟩ := hw.cell_of_copies h hdeclared ht hdeep hm hagainDeep
      exact ⟨again, t', k, run_nestedGet?_of_stored hagain hagainCopy, hk, fun _ => hcell,
        fun hnone => absurd (hnone.symm.trans hdeclared) (by simp)⟩

theorem Sound.rereadsExactly (hw : w.Sound Γ) (ho : o.index < w.store.objects.size)
    (env : Environment) (name inner : String) : RereadsExactly env w.store o name inner := by
  intro m t₂ c value u hget hm hset
  obtain ⟨v, t, x, hnested, hx, hrun⟩ := exists_nested?_of_nestedGet? hget
  obtain ⟨Δ, w', hw', rfl, hv, ht⟩ := hw.holds_nested ho hnested
  obtain ⟨rfl, rfl, rfl, hthere, hbase⟩ := hv.stored_of_written hw' hx hrun hm hset
  have hseen : Store.ShowsAlike env.adapter o w.store (w'.store.setCell c value) :=
    (Store.ShowsAlike.of_enlarges hw.store ht).trans (.setCell hw'.store hbase value)
  rcases hw.lasts_or_declares hnested with ⟨hlasts, -, hnone⟩ | ⟨template, l, hdeclares⟩
  · obtain ⟨t', hagain, hvalue⟩ := hv.reread_of_lasts hw' (hlasts _ hseen) hx hthere hbase
    refine ⟨m, t', value, hagain, ?_, fun ⟨template, l, hdeclares, _⟩ => ?_, fun _ => rfl⟩
    · rw [Member.run_value_note hm, hvalue]
    · exact absurd hdeclares (hnone template l)
  · obtain ⟨again, t', k, hagain, hk, hdeclared, hpassedOn⟩ :=
      hw.reread_of_declares hdeclares hnested hx hm hthere hseen
    refine ⟨again, t', t'.cell k, hagain, Member.run_value_note hk, fun hin => ?_, fun hnot => ?_⟩
    · obtain ⟨template', l', hdeclares', hsome⟩ := hin
      have hsame := hdeclares'.find?.symm.trans hdeclares.find?
      obtain rfl : template' = template := by simpa using hsame
      obtain rfl : l' = l := Option.some.inj (hdeclares'.list?.symm.trans hdeclares.list?)
      rw [Member.run_value_note hm, hdeclared hsome]
    · refine hpassedOn ?_
      rw [← Option.not_isSome_iff_eq_none]
      exact fun hsome => hnot ⟨template, l, hdeclares, hsome⟩

/-- In a member set that lasts, what was added is found. -/
theorem refound_of_lasts {added m : Member} {u u' : Store} {l : ListId}
    (hname : isReservedName m.name = false) (hmask : v.withMask .all = v)
    (hl : v.list? u = some l) (hthere : u.Has (.list l))
    (hfind : (u.list l).find? m.name = some added)
    (hnested : (nested? adapter o name).run u = (some v, u')) (hu : u.Enlarges u') :
    ((nestedGet? adapter o name m.name).run u).1.isSome = true := by
  have hget : ((v.withMask .all).get? adapter m.name).run u' = (some added, u') :=
    get?_of_listed ((v.list?_congr hu.objects).trans hl) hname (by rw [hu.list hthere, hfind])
      (TypeMask.all_admits _)
  rw [run_nestedGet?_of_nested? hnested, ← hmask, hget]
  rfl

/-- In a declared member set nothing is found that was not there before. -/
theorem Sound.refound_of_declares {template : Member} {l k : ListId} {u : Store} (hw : w.Sound Γ)
    (h : DeclaresSet adapter w.store o name template l)
    (hnested : (nested? adapter o name).run w.store = (some v, t)) (hk : v.list? t = some k)
    (ht : w.store.Enlarges t) (hkeeps : t.Keeps (· ≠ .list k) u)
    (hseen : ¬ w.store.Has (.list k) → Store.ShowsAlike adapter o w.store u) :
    ((nestedGet? adapter o name inner).run u).1.isSome = (v.find? adapter t inner).isSome := by
  obtain ⟨inherits, v', t', levels, hfirst, -, ⟨k', hk', hnew⟩, hkind, hfound⟩ :=
    h.find?_nested hw.store (u := w.store) id (fun _ _ => rfl) ⟨rfl, rfl, fun _ _ => ⟨rfl, rfl⟩⟩
  obtain ⟨hv, rfl⟩ := Prod.mk.inj (hfirst.symm.trans hnested)
  obtain rfl : v' = v := Option.some.inj hv
  obtain rfl : k' = k := Option.some.inj (hk'.symm.trans hk)
  have hne {p : Part} (hp : w.store.Has p) : p ≠ .list k' := by
    rintro rfl
    exact hnew hp
  obtain ⟨inherits', v'', u', levels', hagain, -, -, hkind', hrefound⟩ :=
    h.find?_nested hw.store (u := u) (fun hp => hkeeps.has (hne hp) (ht.has hp))
      (fun l hl => (hkeeps.list (hne hl) (ht.has hl)).trans (ht.list hl)) (hseen hnew)
  obtain rfl : inherits = inherits' := by simpa using hkind.symm.trans hkind'
  rw [isSome_nestedGet? hagain]
  rcases hfound inner with ⟨hnone, hpassedOn⟩ | ⟨declared, copy, hdeclared, hcopy, -⟩ <;>
    rcases hrefound inner with ⟨hnone', hpassedOn'⟩ | ⟨declared', copy', hdeclared', hcopy', -⟩
  · rw [hpassedOn, hpassedOn']
  · exact absurd (hnone.symm.trans hdeclared') (by simp)
  · exact absurd (hnone'.symm.trans hdeclared) (by simp)
  · rw [hcopy, hcopy']
    rfl

theorem Sound.refindsExactly (hw : w.Sound Γ) (ho : o.index < w.store.objects.size)
    (adapter : Adapter) (name : String) : RefindsExactly adapter w.store o name := by
  intro v t m vouched added u hnested hrun
  obtain ⟨x, group, -, -, hv⟩ := exists_group_of_nested? hnested
  obtain ⟨Δ, w', hw', rfl, hsees, ht⟩ := hw.holds_nested ho hnested
  obtain ⟨hrefusal, hobjects, htypes, l, hl, hkeeps, hadded⟩ := of_run_add hrun
  have hseen (hne : ∀ state, w.store.object? o = some state → state.members ≠ l) :
      Store.ShowsAlike adapter o w.store u := by
    have hmore : Store.ShowsAlike adapter o w.store w'.store := .of_enlarges hw.store ht
    refine hmore.trans (.of_keeps hw'.store hkeeps hobjects htypes fun state ho => ⟨nofun, ?_⟩)
    have hlist := hne state ((hmore.object? o).symm.trans ho)
    exact fun h => hlist (by cases h; rfl)
  rcases hw.lasts_or_declares hnested with ⟨hlasts, hlocked | hne, hnone⟩ | ⟨template, k, h⟩
  · rw [not_locked_of_addRefusal? hrefusal] at hlocked
    cases hlocked
  · obtain ⟨u', hagain, hu'⟩ := hlasts _ (hseen (hne l hl))
    obtain ⟨hthere, hfind⟩ := hadded (hsees.list hw' hl).1
    refine iff_of_true ?_ (.inl hnone)
    exact refound_of_lasts (not_reserved_of_addRefusal? hrefusal) (withMask_of_ofMember? hv)
      ((v.list?_congr hobjects).trans hl) hthere hfind hagain hu'
  · rw [hw.refound_of_declares h hnested hl ht hkeeps fun hnew => hseen fun state ho => ?_]
    · exact (or_iff_right fun hnone => hnone template k h).symm
    · rintro rfl
      exact hnew (hw.store.objects o state ho).2.1

/-- What is written by way of an object is there when it is looked up again, except in the member
sets that are declared for its type: what is declared in them is as it is declared. -/
theorem Reachable.nestedWrites (hw : w.Reachable) (ho : o.index < w.store.objects.size) :
    (∀ env name inner, RereadsExactly env w.store o name inner) ∧
      ∀ adapter name, RefindsExactly adapter w.store o name := by
  obtain ⟨Γ, hsound, -⟩ := hw.sound
  exact ⟨hsound.rereadsExactly ho, hsound.refindsExactly ho⟩

/-- At an object with a declared member set that has a note in it. -/
theorem Reachable.nestedWrites_shapes :
    shapes.Reachable ∧ (⟨0⟩ : ObjectId).index < shapes.store.objects.size ∧
      RereadsExactly (CommandHost.bare.environment 0) shapes.store ⟨0⟩ "Group" "Size" ∧
      RefindsExactly .bag shapes.store ⟨0⟩ "Group" := by
  have hobject : (⟨0⟩ : ObjectId).index < shapes.store.objects.size := by decide +kernel
  obtain ⟨hrereads, hrefinds⟩ := Reachable.nestedWrites reachable_shapes hobject
  exact ⟨reachable_shapes, hobject, hrereads _ _ _, hrefinds _ _⟩

def written : Store :=
  (shapes.store.after (nestedGet? .bag ⟨0⟩ "Group" "Size")).setCell ⟨3⟩ (.int 5)

/-- The note in the declared member set is written, and then read as it was declared; a member is
added to the set, and then not found. -/
theorem lost_of_declared :
    shapes.Reachable ∧
    ¬ Rereads (CommandHost.bare.environment 0) shapes.store ⟨0⟩ "Group" "Size" ∧
    ¬ Refinds .bag shapes.store ⟨0⟩ "Group" := by
  refine ⟨reachable_shapes, fun h => ?_, fun h => ?_⟩
  · have hlooked : ((nestedGet? .bag ⟨0⟩ "Group" "Size").run shapes.store).1 = some firstSize := by
      decide +kernel
    have hset : (firstSize.setValue (CommandHost.bare.environment 0) (.int 5)).run.run
        (shapes.store.after (nestedGet? .bag ⟨0⟩ "Group" "Size")) = (.ok (), written) :=
      Member.run_setValue_note rfl (.int 5)
    obtain ⟨again, t, hagain, hvalue⟩ := h firstSize _ _ _ _ (Prod.ext hlooked rfl) rfl hset
    have hfound : ((nestedGet? .bag ⟨0⟩ "Group" "Size").run written).1 =
        some ⟨.made 4, "Size", .initial, some ⟨0⟩, .note ⟨4⟩⟩ := by
      decide +kernel
    have hcell : (written.after (nestedGet? .bag ⟨0⟩ "Group" "Size")).cell ⟨4⟩ = .int 1 := by
      rfl
    obtain rfl := Option.some.inj ((congrArg Prod.fst hagain).symm.trans hfound)
    obtain rfl : written.after (nestedGet? .bag ⟨0⟩ "Group" "Size") = t := congrArg Prod.snd hagain
    rw [Member.run_value_note rfl, hcell] at hvalue
    cases hvalue
  · have hgroup : ((nested? .bag ⟨0⟩ "Group").run shapes.store).1 = some groupView := by
      decide +kernel
    have hadd : ((groupView.add looseGroup false).run.run
        (shapes.store.after (nested? .bag ⟨0⟩ "Group"))).1.toOption =
          some ⟨.made 5, "Group", .initial, some ⟨0⟩, .memberSet (.list ⟨4⟩) false⟩ := by
      decide +kernel
    have hlost : ((nestedGet? .bag ⟨0⟩ "Group" "Group").run
        ((shapes.store.after (nested? .bag ⟨0⟩ "Group")).after
          (groupView.add looseGroup false).run)).1.isSome = false := by
      decide +kernel
    obtain ⟨⟨outcome, t⟩, hrun⟩ : ∃ added, (groupView.add looseGroup false).run.run
      (shapes.store.after (nested? .bag ⟨0⟩ "Group")) = added := ⟨_, rfl⟩
    rw [hrun] at hadd
    rw [Store.after, hrun] at hlost
    cases outcome with
    | error refusal => cases hadd
    | ok added =>
      have hfound := h groupView _ looseGroup false added t (Prod.ext hgroup rfl) hrun
      exact absurd (hfound.symm.trans hlost) (by simp)

end World

end DynamicMembers
