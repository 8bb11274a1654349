import DynamicMembers.Proofs.View.Sources

/-! # Which of many members of one name is listed

A view draws on several sources, and one source may have a name more than once. A member has
its place in the view by the source that has it and by where it stands there
(`Standing`). Of the members of one name only the one that comes first can be listed. What
is listed is selected among these afterwards, so a member that is hidden or of a type that is
not asked for still keeps all that come after it from being listed
(`View.listsOnlyFirsts`).
-/
namespace DynamicMembers

/-! ## Places in a list of lists -/

/-- Where an element stands in a list of lists: in which of them, and there where. -/
structure Standing where
  layer : Nat
  position : Nat
  deriving Repr, DecidableEq

namespace Standing

variable {α : Type} {rows : List (List α)} {p q : Standing} {a b : α}

def Before (p q : Standing) : Prop :=
  p.layer < q.layer ∨ p.layer = q.layer ∧ p.position < q.position

theorem Before.asymm (h : p.Before q) : ¬ q.Before p := by
  unfold Before at *
  omega

def Holds (rows : List (List α)) (p : Standing) (a : α) : Prop :=
  ∃ row, rows[p.layer]? = some row ∧ row[p.position]? = some a

def all (rows : List (List α)) : List (Standing × α) :=
  rows.zipIdx.flatMap fun row => row.1.zipIdx.map fun a => (⟨row.2, a.2⟩, a.1)

theorem map_snd_all (rows : List (List α)) : (all rows).map (·.2) = rows.flatten := by
  have hrow (row : List α × Nat) :
      (row.1.zipIdx.map fun a => ((⟨row.2, a.2⟩ : Standing), a.1)).map (·.2) = row.1 := by
    rw [List.map_map]
    exact List.zipIdx_map_fst 0 row.1
  calc (all rows).map (·.2)
      = rows.zipIdx.flatMap (·.1) := by simp only [all, List.map_flatMap, hrow]
    _ = (rows.zipIdx.map (·.1)).flatten := List.flatMap_def
    _ = rows.flatten := by rw [List.zipIdx_map_fst]

theorem mem_all : (p, a) ∈ all rows ↔ Holds rows p a := by
  constructor
  · intro h
    obtain ⟨row, hrow, h⟩ := List.mem_flatMap.mp h
    obtain ⟨b, hb, heq⟩ := List.mem_map.mp h
    cases heq
    exact ⟨row.1, List.mem_zipIdx_iff_getElem?.mp hrow, List.mem_zipIdx_iff_getElem?.mp hb⟩
  · rintro ⟨row, hrow, ha⟩
    refine List.mem_flatMap.mpr ⟨(row, p.layer), List.mem_zipIdx_iff_getElem?.mpr hrow, ?_⟩
    exact List.mem_map.mpr ⟨(a, p.position), List.mem_zipIdx_iff_getElem?.mpr ha, rfl⟩

theorem pairwise_zipIdx (as : List α) : as.zipIdx.Pairwise fun a b => a.2 < b.2 := by
  rw [← List.pairwise_map (f := Prod.snd) (R := (· < ·)), List.zipIdx_map_snd]
  exact List.pairwise_lt_range' 1

theorem pairwise_all (rows : List (List α)) :
    (all rows).Pairwise fun a b => a.1.Before b.1 := by
  refine List.pairwise_flatMap.mpr ⟨fun row _ => ?_, ?_⟩
  · rw [List.pairwise_map]
    exact (pairwise_zipIdx row.1).imp fun hlt => .inr ⟨rfl, hlt⟩
  · refine (pairwise_zipIdx rows).imp fun {first second} hlt x hx y hy => ?_
    obtain ⟨a, -, rfl⟩ := List.mem_map.mp hx
    obtain ⟨b, -, rfl⟩ := List.mem_map.mp hy
    exact .inl hlt

end Standing

theorem sublist_firstByName {α : Type} {nameOf : α → String} {claimed : List String}
    (as : List α) : (firstByName nameOf claimed as).Sublist as := by
  fun_induction firstByName nameOf claimed as with
  | case1 => exact List.Sublist.refl _
  | case2 claimed first rest key _ ih => exact ih.cons first
  | case3 claimed first rest key _ ih => exact ih.cons_cons first

theorem mem_firstByName_cons {α : Type} {nameOf : α → String} {claimed : List String}
    {first a : α} {rest : List α} : a ∈ firstByName nameOf claimed (first :: rest) ↔
      a = first ∧ foldCase (nameOf first) ∉ claimed ∨
        a ∈ firstByName nameOf (foldCase (nameOf first) :: claimed) rest := by
  by_cases hclaimed : foldCase (nameOf first) ∈ claimed
  · have hkeys : ∀ key, key ∈ claimed ↔ key ∈ foldCase (nameOf first) :: claimed := by
      intro key
      simp only [List.mem_cons, iff_or_self]
      rintro rfl
      exact hclaimed
    simp [firstByName, hclaimed, firstByName_congr hkeys]
  · simp [firstByName, hclaimed]

/-- In a list that is in order, what stays of each name is the entry that no other of its name
comes before. -/
theorem mem_firstByName_iff {α : Type} {nameOf : α → String} {before : α → α → Prop}
    {as : List α} (has : as.Pairwise before) (hasymm : ∀ a b, before a b → ¬ before b a)
    {claimed : List String} {a : α} :
    a ∈ firstByName nameOf claimed as ↔ a ∈ as ∧ foldCase (nameOf a) ∉ claimed ∧
      ∀ b ∈ as, before b a → sameName (nameOf b) (nameOf a) = false := by
  induction as generalizing claimed with
  | nil => simp [firstByName]
  | cons first rest ih =>
    obtain ⟨hfirst, hrest⟩ := List.pairwise_cons.mp has
    rw [mem_firstByName_cons, ih hrest]
    constructor
    · rintro (⟨rfl, hnew⟩ | ⟨ha, hnew, hearlier⟩)
      · refine ⟨List.mem_cons_self, hnew, fun b hb hbefore => ?_⟩
        rcases List.mem_cons.mp hb with rfl | hb
        · exact absurd hbefore (hasymm _ _ hbefore)
        · exact absurd hbefore (hasymm _ _ (hfirst b hb))
      · rw [List.mem_cons, not_or] at hnew
        refine ⟨List.mem_cons_of_mem _ ha, hnew.2, fun b hb hbefore => ?_⟩
        rcases List.mem_cons.mp hb with rfl | hb
        · rw [Bool.eq_false_iff]
          exact fun hsame => hnew.1 (foldCase_eq_iff.mpr hsame).symm
        · exact hearlier b hb hbefore
    · rintro ⟨ha, hnew, hearlier⟩
      rcases List.mem_cons.mp ha with rfl | ha
      · exact .inl ⟨rfl, hnew⟩
      · have hother := hearlier first List.mem_cons_self (hfirst a ha)
        refine .inr ⟨ha, ?_, fun b hb => hearlier b (List.mem_cons_of_mem _ hb)⟩
        rw [List.mem_cons, not_or]
        refine ⟨fun heq => ?_, hnew⟩
        rw [foldCase_eq_iff.mp heq.symm] at hother
        cases hother

/-! ## Listings -/

namespace View

/-- What each source of a view has, in the order of precedence. -/
def tiers (adapter : Adapter) (s : Store) (v : View) : List (List Sighting) :=
  (v.layers adapter s).map (·.members)

/-- The member stands there in the view, and none of the same name comes before it. -/
structure FirstAt (adapter : Adapter) (s : Store) (v : View) (p : Standing) (x : Sighting) :
    Prop where
  here : Standing.Holds (v.tiers adapter s) p x
  first : ∀ q y, q.Before p → Standing.Holds (v.tiers adapter s) q y →
    sameName y.name x.name = false

/-- A listing of the view asks for members such as this one. -/
structure AsksFor (v : View) (pattern : Wildcard) (types : TypeMask) (options : MatchOptions)
    (m : Member) : Prop where
  named : pattern.accepts m.name = true
  typed : types.admits m.type = true
  shown : v.mask.admits m.type = true
  hidden : m.flags.hidden = true → options.includeHidden = true
  serialized : options.onlySerializable = true → m.flags.serialized = true

/-- The members are what the view has first of each name, as far as it is asked for. -/
structure ListsFirsts (adapter : Adapter) (s : Store) (v : View) (pattern : Wildcard)
    (types : TypeMask) (options : MatchOptions) (members : List Member) : Prop where
  /-- Each is a copy of a member of the view, in the order in which these stand there. -/
  firsts : ∃ found : List (Standing × Sighting),
    found.Pairwise (fun a b => a.1.Before b.1) ∧
    (∀ p x, (p, x) ∈ found ↔
      v.FirstAt adapter s p x ∧ v.AsksFor pattern types options x.member) ∧
    List.Forall₂ (fun a m => a.2.member.IsCopy (v.ownerFor a.2) m) found members
  asked : ∀ m ∈ members, v.AsksFor pattern types options m
  distinct : members.Pairwise fun m other => sameName m.name other.name = false
  /-- Whatever a source has keeps its name from all that comes later, listed or not. -/
  unshadowed : ∀ q y, Standing.Holds (v.tiers adapter s) q y → ∀ m ∈ members,
    sameName y.name m.name = true → ∃ p x, v.FirstAt adapter s p x ∧ ¬ q.Before p ∧
      x.member.IsCopy (v.ownerFor x) m

variable {adapter : Adapter} {s : Store} {v : View} {pattern : Wildcard} {types : TypeMask}
  {options : MatchOptions}

theorem asksFor_iff {m : Member} : v.AsksFor pattern types options m ↔
    (pattern.accepts m.name && m.passes (types.inter v.mask) options) = true := by
  simp only [Member.passes, TypeMask.inter_admits, Bool.and_eq_true, Bool.or_eq_true,
    Bool.not_eq_true']
  constructor
  · rintro ⟨hname, htype, hmask, hhidden, hserialized⟩
    refine ⟨hname, ⟨⟨htype, hmask⟩, ?_⟩, ?_⟩
    · cases hflag : m.flags.hidden with
      | false => exact .inl rfl
      | true => exact .inr (hhidden hflag)
    · cases hoption : options.onlySerializable with
      | false => exact .inl rfl
      | true => exact .inr (hserialized hoption)
  · rintro ⟨hname, ⟨⟨htype, hmask⟩, hhidden⟩, hserialized⟩
    refine ⟨hname, htype, hmask, fun hflag => ?_, fun hoption => ?_⟩
    · simpa [hflag] using hhidden
    · simpa [hoption] using hserialized

theorem AsksFor.copied {owner : Option ObjectId} {m other : Member}
    (h : v.AsksFor pattern types options m) (hcopy : m.IsCopy owner other) :
    v.AsksFor pattern types options other := by
  obtain ⟨hname, htype, hmask, hhidden, hserialized⟩ := h
  rw [← hcopy.name] at hname
  rw [← hcopy.type] at htype hmask
  rw [← hcopy.flags] at hhidden hserialized
  exact ⟨hname, htype, hmask, hhidden, hserialized⟩

def firsts (adapter : Adapter) (s : Store) (v : View) : List (Standing × Sighting) :=
  firstByName (fun a => a.2.name) [] (Standing.all (v.tiers adapter s))

theorem map_snd_firsts : (v.firsts adapter s).map (·.2) = v.union adapter s := by
  have htiers : (Standing.all (v.tiers adapter s)).map (·.2) =
      (v.layers adapter s).flatMap (·.members) := by
    rw [Standing.map_snd_all, tiers, List.flatMap_def]
  rw [union, Layer.unionOf, ← htiers, firstByName_map]
  rfl

theorem mem_firsts {p : Standing} {x : Sighting} :
    (p, x) ∈ v.firsts adapter s ↔ v.FirstAt adapter s p x := by
  rw [firsts, mem_firstByName_iff (Standing.pairwise_all _) fun _ _ hbefore => hbefore.asymm,
    Standing.mem_all]
  constructor
  · rintro ⟨hhere, -, hfirst⟩
    exact ⟨hhere, fun q y hbefore hy => hfirst (q, y) (Standing.mem_all.mpr hy) hbefore⟩
  · rintro ⟨hhere, hfirst⟩
    refine ⟨hhere, by simp, fun b hb hbefore => ?_⟩
    exact hfirst b.1 b.2 hbefore (Standing.mem_all.mp hb)

theorem pairwise_firsts :
    (v.firsts adapter s).Pairwise fun a b => a.1.Before b.1 :=
  (Standing.pairwise_all _).sublist (sublist_firstByName _)

/-- What an enumeration hands out are the members that come first of their names, as far as it
asks for them. -/
theorem listsFirsts_matching (adapter : Adapter) (v : View) (s : Store) (pattern : Wildcard)
    (types : TypeMask) (options : MatchOptions) :
    v.ListsFirsts adapter s pattern types options
      ((v.matching adapter pattern types options).run s).1 := by
  let found := (v.firsts adapter s).filter fun a =>
    pattern.accepts a.2.member.name && a.2.member.passes (types.inter v.mask) options
  have hmem (p : Standing) (x : Sighting) : (p, x) ∈ found ↔
      v.FirstAt adapter s p x ∧ v.AsksFor pattern types options x.member := by
    rw [List.mem_filter, mem_firsts, asksFor_iff]
  have hsightings : v.sightings adapter s pattern types options = found.map (·.2) := by
    rw [sightings, ← map_snd_firsts, List.filter_map]
    rfl
  have hcopies := forall₂_matching adapter v v.isCopy_handOut pattern types options s
  rw [hsightings, List.forall₂_map_left_iff] at hcopies
  refine ⟨⟨found, pairwise_firsts.filter _, hmem, hcopies⟩, ?_,
    v.pairwise_matching adapter pattern types options, ?_⟩
  · intro m hm
    obtain ⟨⟨p, x⟩, hx, hcopy⟩ := exists_mem_of_forall₂ hcopies hm
    exact ((hmem p x).mp hx).2.copied hcopy
  · intro q y hy m hm hsame
    obtain ⟨⟨p, x⟩, hx, hcopy⟩ := exists_mem_of_forall₂ hcopies hm
    have hfirst := ((hmem p x).mp hx).1
    refine ⟨p, x, hfirst, fun hbefore => ?_, hcopy⟩
    -- something of its name before it would have kept it from being listed
    have hother := hfirst.first q y hbefore hy
    rw [Sighting.name, Sighting.name, ← hcopy.name] at hother
    rw [Sighting.name, hother] at hsame
    cases hsame

theorem run_matchingText_of_parse {text : String} (h : Wildcard.parse text = .ok pattern) :
    (v.matchingText adapter text types options).run.run s =
      (.ok ((v.matching adapter pattern types options).run s).1,
        ((v.matching adapter pattern types options).run s).2) := by
  rw [matchingText, h]
  rfl

/-- Whatever it is asked for, an enumeration never lists a member behind another one of the same
name, and lists all others that it is asked for. -/
theorem listsOnlyFirsts (adapter : Adapter) (v : View) (s : Store) (types : TypeMask)
    (options : MatchOptions) :
    (∀ pattern, v.ListsFirsts adapter s pattern types options
      ((v.matching adapter pattern types options).run s).1) ∧
    ∀ text pattern, Wildcard.parse text = .ok pattern → ∃ members t,
      (v.matchingText adapter text types options).run.run s = (.ok members, t) ∧
        v.ListsFirsts adapter s pattern types options members := by
  constructor
  · intro pattern
    exact listsFirsts_matching adapter v s pattern types options
  · intro text pattern hparse
    exact ⟨_, _, run_matchingText_of_parse hparse,
      listsFirsts_matching adapter v s pattern types options⟩

/-- Of three entries of a map one is behind a hidden note, and one behind a declared member that is
no property. -/
def veiled : Store :=
  ((((Store.initial #[]).after (Store.wrapAs
    (.map [("Size", .null), ("Rank", .null), ("Side", .null)]) ["Box"])).after
    (Store.addCell (.boolean true))).after
    (Store.addToList ⟨0⟩ ⟨.made 0, "SIZE", ⟨true, true, false, true⟩, some ⟨0⟩, .note ⟨1⟩⟩
      true).run).after
    (Store.declare "box" ⟨.made 1, "RANK", .initial, none, .propertySet ["size"]⟩).run

def veiledPattern : Wildcard :=
  ⟨"?[ai]*", .glob [.one .any, .one (.within [.single 'a', .single 'i']), .run]⟩

theorem listsOnlyFirsts_veiled :
    Wildcard.parse "?[ai]*" = .ok veiledPattern ∧
    (((ofObject ⟨0⟩).withMask .properties).matching .bag veiledPattern .all .visible
      |>.run veiled).1.map (·.name) = ["Side"] ∧
    ∃ members t,
      (((ofObject ⟨0⟩).withMask .properties).matchingText .bag "?[ai]*" .all .visible).run.run
        veiled = (.ok members, t) ∧
      ((ofObject ⟨0⟩).withMask .properties).ListsFirsts .bag veiled veiledPattern .all .visible
        members := by
  have hparse : Wildcard.parse "?[ai]*" = .ok veiledPattern := by decide +kernel
  exact ⟨hparse, by decide +kernel,
    (listsOnlyFirsts .bag _ veiled .all .visible).2 _ _ hparse⟩

end View

end DynamicMembers
