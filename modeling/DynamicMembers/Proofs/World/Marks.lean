import DynamicMembers.Proofs.View.Additions
import DynamicMembers.Proofs.View.Owners

/-! # Members marked as reserved in lists

Anyone can mark a member as a reserved one. No list is made of marked members, but an
addition to a view does not look at the mark, even if no one vouches for the member. So as
long as no list has a marked member, there comes to be one exactly by adding a marked member
to a view (`World.Change.unmarked_iff`), and a member set that was added so can not be changed
from then on. Whatever has been done, marks in lists come from such an addition
(`World.Reachable.tracesMarks`).
-/
namespace DynamicMembers

def MemberList.Unmarked (l : MemberList) : Prop := ∀ m ∈ l.members, m.flags.reserved = false

def Store.Unmarked (s : Store) : Prop := ∀ l, (s.list l).Unmarked

def Store.StaysUnmarked (s t : Store) : Prop := s.Unmarked → t.Unmarked

/-- Nothing can be added or removed through the view of the member set. -/
def Store.Locks (s : Store) (g : Member) : Prop :=
  ∀ v, View.ofMember? s g = some v → ∀ mask,
    (∀ m vouched, ((v.withMask mask).add m vouched).run.run s =
      (.error (.reservedMemberSet g.name), s)) ∧
    ∀ name, ((v.withMask mask).remove name).run.run s = (.error (.reservedMemberSet g.name), s)

namespace World

/-- A marked member is added to a view, whether or not anyone vouches for it. -/
inductive Marks : World → World → Prop
  | add {w : World} {v : View} {m copy : Member} {t : Store} (hv : w.Sees v) (hm : m ∈ w.members)
      (hmark : m.flags.reserved = true) (vouched : Bool)
      (h : (v.add m vouched).run.run w.store = (.ok copy, t)) : Marks w (w.receive copy t)

/-- A marked member was added when no list had one yet. -/
def MarkedBefore (w : World) : Prop :=
  ∃ w₁ w₂ : World, w₁.Reachable ∧ w₁.store.Unmarked ∧ w₁.Marks w₂ ∧ Store.Steps w₂.store w.store

/-- Where marks in lists come from, and what they do. -/
structure TracesMarks (w : World) : Prop where
  /-- The first mark comes by the addition of a marked member, and by nothing else. -/
  step : w.store.Unmarked → ∀ w', Change w w' → (w'.store.Unmarked ↔ ¬ w.Marks w')
  /-- If there are marks, there has been such an addition. -/
  source : ¬ w.store.Unmarked → w.MarkedBefore
  /-- An addition is refused no matter whether the member is marked. -/
  blind : ∀ v m vouched refusal, w.Sees v →
    ((v.add m vouched).run.run w.store = (.error refusal, w.store) ↔
      (v.add (m.setFlag .reserved false) vouched).run.run w.store = (.error refusal, w.store))
  /-- If it is not refused, the mark is stored. -/
  stored : ∀ v m vouched copy t, w.Sees v → m ∈ w.members →
    (v.add m vouched).run.run w.store = (.ok copy, t) → copy.flags = m.flags ∧
      ∃ l, v.list? w.store = some l ∧ copy ∈ (t.list l).members
  /-- No list is made of members of which one is marked. -/
  grouped : ∀ members, (∃ m ∈ members, m.flags.reserved = true) →
    ∃ refusal, MemberList.ofMembers members = .error refusal
  /-- Of the member sets that are stored, those that are marked can not be changed. -/
  locked : ∀ l, ∀ g ∈ (w.store.list l).members, g.kind.list?.isSome = true →
    (w.store.Locks g ↔ g.flags.reserved = true)

end World

/-! ## Lists -/

namespace MemberList

variable {l l' : MemberList} {members : List Member}

theorem unmarked_empty : empty.Unmarked := by simp [Unmarked, members, empty]

/-- Members that no one vouches for are not marked. -/
theorem unmarked_of_addAll (h : l.addAll members = .ok l') :
    ∀ m ∈ members, m.flags.reserved = false := by
  induction members generalizing l with
  | nil => simp
  | cons m rest ih =>
    cases hadd : l.add m false with
    | error refusal => simp [addAll, hadd, bind, Except.bind] at h
    | ok added =>
      refine List.forall_mem_cons.mpr ⟨?_, ih (l := added.2) ?_⟩
      · unfold add at hadd
        split at hadd
        · cases hadd
        · split at hadd
          · cases hadd
          · simpa using ‹¬(!false && m.flags.reserved) = true›
      · simpa [addAll, hadd, bind, Except.bind] using h

theorem unmarked_of_ofMembers (h : ofMembers members = .ok l) :
    ∀ m ∈ members, m.flags.reserved = false :=
  unmarked_of_addAll h

end MemberList

/-! ## What leaves lists without marks -/

namespace Store

variable {s t : Store}

namespace Unmarked

theorem iff_lists : s.Unmarked ↔ ∀ l ∈ s.lists, ∀ m ∈ l.members, m.flags.reserved = false := by
  refine ⟨fun hs l hl => ?_, fun hs l m hm => ?_⟩
  · obtain ⟨i, hi⟩ := Array.mem_iff_getElem?.mp hl
    have hlist : s.list ⟨i⟩ = l := by rw [Store.list, hi, Option.getD_some]
    exact hlist ▸ hs ⟨i⟩
  · have hthere := has_of_mem_list hm
    have hlist : s.list l = s.lists[l.index] := by
      rw [Store.list, Array.getElem?_eq_getElem hthere, Option.getD_some]
    exact hs _ (Array.getElem_mem hthere) m (hlist ▸ hm)

instance : Decidable s.Unmarked := decidable_of_iff' _ iff_lists

theorem initial (shelf : Array Value) : (Store.initial shelf).Unmarked := by
  simp [Unmarked, Store.list, Store.initial, Store.empty, MemberList.unmarked_empty]

theorem of_lists (hs : s.Unmarked) (h : t.lists = s.lists) : t.Unmarked := by
  intro l
  rw [Store.list, h]
  exact hs l

theorem addList {l : MemberList} (hs : s.Unmarked) (hl : l.Unmarked) :
    (s.after (Store.addList l)).Unmarked :=
  forall_list_addList (Q := MemberList.Unmarked) hs hl

theorem setList {members : MemberList} (hs : s.Unmarked) (l : ListId) (hm : members.Unmarked) :
    (s.setList l members).Unmarked :=
  forall_list_setList (Q := MemberList.Unmarked) MemberList.unmarked_empty hs l hm

end Unmarked

namespace StaysUnmarked

instance : Coherent StaysUnmarked := ⟨fun _ => id, fun h hrest hs => hrest (h hs)⟩

theorem of_lists (h : t.lists = s.lists) : s.StaysUnmarked t := fun hs => hs.of_lists h

instance : Declares StaysUnmarked where
  addCell _ _ := of_lists rfl
  addScript _ _ := of_lists rfl
  addList h _ hs := hs.addList fun m hm =>
    MemberList.unmarked_of_ofMembers h m (MemberList.mem_of_ofMembers h m hm)
  nextMemberId _ := of_lists rfl
  declareType _ _ := of_lists rfl
  declare := within_declare fun _ _ => of_lists rfl

theorem copyFor (owner : Option ObjectId) (m : Member) :
    Within StaysUnmarked (Store.copyFor owner m) := by
  intro s
  refine invariant_copyFor (I := Unmarked) (fun _ hs => hs.of_lists rfl)
    (fun hs => hs.of_lists rfl) (fun {s t l owner copies} hs ht hcopies => ?_) owner m
  refine ht.addList fun m hm => ?_
  obtain ⟨other, hother, rfl⟩ := List.mem_map.mp hm
  obtain ⟨entry, hentry, -, hcopy⟩ := exists_mem_of_forall₂ hcopies hother
  rw [hcopy.flags]
  exact hs l entry.2 (List.mem_map_of_mem hentry)

theorem handOut (v : View) (x : Sighting) : Within StaysUnmarked (v.handOut x) := by
  unfold View.handOut
  split
  · exact fun _ => of_lists rfl
  · exact within_pure _
  · exact within_pure _
  · exact copyFor _ _
  · exact copyFor _ _

theorem remove (v : View) (name : String) : Within StaysUnmarked (v.remove name).run := by
  intro s hs
  rcases v.run_remove name s with ⟨outcome, hrun, -⟩ | ⟨l, removed, members, -, hremove, hrun⟩
  · rw [after, hrun]
    exact hs
  · rw [after, hrun]
    exact hs.setList l fun m hm => hs l m ((MemberList.members_of_remove hremove).1 hm)

theorem wrapAs (v : Value) (typeNames : List String) :
    Within StaysUnmarked (Store.wrapAs v typeNames) := fun s hs =>
  (Unmarked.addList (hs.of_lists (t := s.after (Store.addCell v)) rfl)
    MemberList.unmarked_empty).of_lists rfl

end StaysUnmarked

end Store

namespace View

variable {s : Store} {v : View} {m : Member} {vouched : Bool}

/-- Nothing that is asked of a member that is to be added depends on its mark. -/
theorem addRefusal?_setFlag (on : Bool) :
    v.addRefusal? s (m.setFlag .reserved on) vouched = v.addRefusal? s m vouched := rfl

end View

/-! ## Additions -/

namespace World

variable {w w' : World} {v : View} {m copy : Member} {vouched : Bool} {t : Store}
  {refusal : MemberError}

theorem Sees.add_error_iff (hv : w.Sees v) :
    (v.add m vouched).run.run w.store = (.error refusal, w.store) ↔
      v.addRefusal? w.store m vouched = some refusal := by
  refine ⟨fun h => ?_, View.add_of_refusal⟩
  cases hrefusal : v.addRefusal? w.store m vouched with
  | some first =>
    cases (View.add_of_refusal hrefusal).symm.trans h
    rfl
  | none =>
    obtain ⟨l, hl⟩ := hv.exists_list (View.not_locked_of_addRefusal? hrefusal)
    obtain ⟨replaced, members, -, hrun⟩ := View.run_add hrefusal hl rfl
    cases hrun.symm.trans h

theorem Sees.stored_of_add (hw : w.Reachable) (hv : w.Sees v) (hm : m ∈ w.members)
    (h : (v.add m vouched).run.run w.store = (.ok copy, t)) : copy.flags = m.flags ∧
      ∃ l, v.list? w.store = some l ∧ copy ∈ (t.list l).members := by
  cases hrefusal : v.addRefusal? w.store m vouched with
  | some refusal => cases (View.add_of_refusal hrefusal).symm.trans h
  | none =>
    obtain ⟨l, other, u, hl, hrun, hadded⟩ := hv.added hw hm hrefusal
    cases hrun.symm.trans h
    exact ⟨hadded.copied.freshCopy.flags, l, hl, hadded.list ▸ PlainList.mem_put _ copy⟩

theorem Marks.not_unmarked (hw : w.Reachable) (h : w.Marks w') : ¬ w'.store.Unmarked := by
  cases h with
  | add hv hm hmark vouched h =>
    obtain ⟨hflags, l, -, hcopy⟩ := hv.stored_of_add hw hm h
    intro hunmarked
    have hclear := hunmarked l _ hcopy
    rw [hflags, hmark] at hclear
    cases hclear

end World

namespace Store.StaysUnmarked

theorem add (v : View) {m : Member} (hm : m.flags.reserved = false) (vouched : Bool) :
    Within StaysUnmarked (v.add m vouched).run := by
  intro s hs
  rcases v.add_cases m vouched s with ⟨refusal, hrun⟩ |
    ⟨l, copy, u, replaced, members, announced, -, hcopy, hadd, hrun⟩
  · rw [after, hrun]
    exact hs
  · have hflags := (isCopy_copyFor (v.owner?.or m.owner) m s).flags
    have hu := copyFor (v.owner?.or m.owner) m s hs
    rw [after, hcopy] at hu
    rw [hcopy] at hflags
    have hset : (u.setList l members).Unmarked := by
      refine Unmarked.setList hu l fun other hother => ?_
      rcases (MemberList.members_of_add hadd).2 other hother with rfl | hold
      · rw [hflags, hm]
      · exact hu l other hold
    rw [after, hrun]
    exact hset.of_lists rfl

end Store.StaysUnmarked

/-! ## Runs -/

namespace World

open Store (StaysUnmarked)

variable {w w' : World}

theorem gain_returned {ε : Type} {x : Run ε Member} {m : Member} {t : Store}
    (h : x.run.run w.store = (.ok m, t)) : w.gain x.run returned = w.receive m t := by
  rw [gain, Store.after, h]
  rfl

/-- A deed brings no mark into a list, unless a marked member is added. -/
theorem Deed.marks_or_staysUnmarked {sharing : Bool} (h : Deed sharing w w') :
    w.Marks w' ∨ w.store.StaysUnmarked w'.store := by
  cases h with
  | @add v m hv hm vouched =>
    rcases v.add_cases m vouched w.store with ⟨refusal, hrun⟩ |
      ⟨_, copy, u, _, members, announced, -, -, -, hrun⟩
    · exact .inr (.of_lists (congrArg (Store.lists ∘ Prod.snd) hrun))
    · cases hmark : m.flags.reserved with
      | false => exact .inr (StaysUnmarked.add v hmark vouched w.store)
      | true =>
        rw [gain_returned hrun]
        exact .inl (.add hv hm hmark vouched hrun)
  | group hm h inherits => exact .inr (Store.Grows.addList h w.store)
  | define name hk => exact .inr (Member.within_define name _ w.store)
  | copy => exact .inr (StaysUnmarked.copyFor _ _ w.store)
  | @get v adapter xs hv hx => exact .inr (Store.Within.mapM (StaysUnmarked.handOut v) xs w.store)
  | @remove v hv name => exact .inr (StaysUnmarked.remove v name w.store)
  | wrap => exact .inr (StaysUnmarked.wrapAs _ _ w.store)
  | insertTypeName o name =>
    exact .inr (Store.related_insertTypeName (fun _ _ _ => .of_lists rfl) w.store o name)
  | release o => exact .inr (Store.related_release (fun _ _ _ => .of_lists rfl) w.store o)
  | _ => exact .inr (.of_lists rfl)

theorem Change.marks_or_staysUnmarked (h : Change w w') :
    w.Marks w' ∨ w.store.StaysUnmarked w'.store := by
  cases h with
  | deed h => exact h.marks_or_staysUnmarked
  | declareType name => exact .inr (.of_lists rfl)
  | declare hm typeName => exact .inr (Store.Declares.declare typeName _ w.store)
  | load env text => exact .inr (env.within_loadTypes text w.store)

/-- The first mark comes by the addition of a marked member, and by nothing else. -/
theorem Change.unmarked_iff (hw : w.Reachable) (hunmarked : w.store.Unmarked) (h : Change w w') :
    w'.store.Unmarked ↔ ¬ w.Marks w' :=
  ⟨fun hstill hmarks => hmarks.not_unmarked hw hstill,
    fun hnot => h.marks_or_staysUnmarked.resolve_left hnot hunmarked⟩

theorem Change.unmarked_or_marked (hw : w.Reachable) (h : Change w w')
    (hbefore : w.store.Unmarked ∨ w.MarkedBefore) : w'.store.Unmarked ∨ w'.MarkedBefore := by
  rcases hbefore with hunmarked | ⟨w₁, w₂, hw₁, hunmarked, hmarks, hsteps⟩
  · rcases h.marks_or_staysUnmarked with hmarks | hstays
    · exact .inr ⟨w, w', hw, hunmarked, hmarks, .refl⟩
    · exact .inl (hstays hunmarked)
  · exact .inr ⟨w₁, w₂, hw₁, hunmarked, hmarks, hsteps.trans h.steps⟩

theorem Reachable.unmarked_or_marked (hw : w.Reachable) :
    w.store.Unmarked ∨ w.MarkedBefore := by
  refine hw.induction (P := fun w => w.store.Unmarked ∨ w.MarkedBefore)
    (fun _ => .inl (.initial _)) (fun hw ih h => h.unmarked_or_marked hw ih) fun hcovers ih => ?_
  unfold MarkedBefore at ih ⊢
  rwa [← hcovers.store]

end World

/-- A member set with a list of its own can be changed unless it is marked. -/
theorem Store.locks_iff {s : Store} {g : Member} (hlist : g.kind.list?.isSome = true) :
    s.Locks g ↔ g.flags.reserved = true := by
  obtain ⟨l, hl⟩ := Option.isSome_iff_exists.mp hlist
  obtain ⟨inherits, hkind⟩ := MemberKind.exists_memberSet_of_list? hl
  have hview : View.ofMember? s g =
      some ⟨.set g.name l (s.ownerOf g) inherits g.flags.reserved, .all⟩ := by
    rw [View.ofMember?, hkind]
  refine ⟨fun hlocks => ?_, fun hmark v hv mask => ?_⟩
  · -- An open view would refuse a removal for the name that is asked for.
    by_contra hmark
    have hremove := (hlocks _ hview .all).2 ReservedMember.base.name
    have hrefusal : (View.withMask ⟨.set g.name l (s.ownerOf g) inherits g.flags.reserved, .all⟩
        .all).removeRefusal? s ReservedMember.base.name =
          some (.reservedName ReservedMember.base.name) := by
      rw [View.removeRefusal?, if_neg (by simpa [View.isReadOnly, View.withMask] using hmark),
        if_pos (by decide +kernel)]
    cases (View.remove_of_refusal hrefusal).symm.trans hremove
  · cases hview.symm.trans hv
    have hlocked : (View.withMask ⟨.set g.name l (s.ownerOf g) inherits g.flags.reserved, .all⟩
        mask).isReadOnly = true := hmark
    exact ⟨fun m vouched => View.add_of_refusal (if_pos hlocked),
      fun name => View.remove_of_refusal (if_pos hlocked)⟩

namespace World

/-- Whatever has been done, marks in lists come from additions of marked members to views, and such
an addition is not refused for the mark. -/
theorem Reachable.tracesMarks {w : World} (hw : w.Reachable) : w.TracesMarks where
  step hunmarked _ h := h.unmarked_iff hw hunmarked
  source hmarked := hw.unmarked_or_marked.resolve_left hmarked
  blind v m vouched refusal hv := by
    rw [hv.add_error_iff, hv.add_error_iff, View.addRefusal?_setFlag]
  stored v m vouched copy t hv hm h := hv.stored_of_add hw hm h
  grouped members := by
    rintro ⟨m, hm, hmark⟩
    cases hl : MemberList.ofMembers members with
    | error refusal => exact ⟨refusal, rfl⟩
    | ok l => cases hmark.symm.trans (MemberList.unmarked_of_ofMembers hl m hm)
  locked _ _ _ hlist := Store.locks_iff hlist

def groupBeside : World := grouped.withStore (grouped.store.after (Store.wrapAs .null []))

def groupMarked : World :=
  { groupBeside with members := looseGroup.setFlag .reserved true :: groupBeside.members }

def markAdded : World :=
  groupMarked.gain
    ((View.ofObject ⟨0⟩).add (looseGroup.setFlag .reserved true) false).run returned

def ownMarkedGroup : Member :=
  ⟨.made 3, "Group", { MemberFlags.initial with reserved := true }, some ⟨0⟩,
    .memberSet (.list ⟨2⟩) false⟩

theorem deeds_groupMarked : Deeds true (initial #[]) groupMarked := by
  have hobject : Deed true grouped groupBeside := .wrap (by simp [Knows, Value.members]) []
  have hgroup : looseGroup ∈ groupBeside.members := by decide +kernel
  exact ((deeds_sized.trans deeds_grouped).tail hobject).tail (.setFlag hgroup .reserved true)

theorem reachable_groupMarked : groupMarked.Reachable :=
  ⟨#[], by simp, acts_of_changes (changes_of_deeds deeds_groupMarked)⟩

theorem sees_groupMarked : groupMarked.Sees (View.ofObject ⟨0⟩) :=
  .object (by decide +kernel) .all

theorem deed_markAdded : Deed true groupMarked markAdded :=
  .add sees_groupMarked (by decide +kernel) false

theorem Reachable.tracesMarks_markAdded :
    markAdded.Reachable ∧ ¬ markAdded.store.Unmarked ∧ markAdded.TracesMarks := by
  have hreached : markAdded.Reachable :=
    reachable_groupMarked.acts (.single (.change (.deed deed_markAdded)))
  exact ⟨hreached, by decide +kernel, hreached.tracesMarks⟩

/-- No one vouches for a marked member set, and it is stored with its mark, which locks it. -/
theorem marked_of_unvouched :
    groupMarked.Reachable ∧ groupMarked.store.Unmarked ∧ groupMarked.Sees (View.ofObject ⟨0⟩) ∧
    looseGroup.setFlag .reserved true ∈ groupMarked.members ∧
    markAdded = groupMarked.gain
      ((View.ofObject ⟨0⟩).add (looseGroup.setFlag .reserved true) false).run returned ∧
    ownMarkedGroup ∈ (markAdded.store.list ⟨1⟩).members ∧
    ownMarkedGroup.flags.reserved = true ∧ markAdded.store.Locks ownMarkedGroup := by
  have hlocks : markAdded.store.Locks ownMarkedGroup := (Store.locks_iff rfl).mpr rfl
  exact ⟨reachable_groupMarked, by decide +kernel, sees_groupMarked, by decide +kernel, rfl,
    by decide +kernel, rfl, hlocks⟩

end World

end DynamicMembers
