import DynamicMembers.Proofs.Store.Reachable
import Mathlib.Data.List.Forall2

/-! # What a copy has in common with its member

A copy has an identity of its own, cells for what is stored in it, and lists for what
is nested in it. Its name, its flags and everything else of its kind are those of the
member, and it belongs to whom it was made for (`Member.IsCopy`).
-/
namespace DynamicMembers

/-- The kind without the cell or the list that a copy has for itself. -/
def MemberKind.form : MemberKind → MemberKind
  | .note _ => .note ⟨0⟩
  | .captured _ => .captured ⟨0⟩
  | .memberSet (.list _) inherits => .memberSet (.list ⟨0⟩) inherits
  | kind => kind

@[simp] theorem MemberKind.type_form (kind : MemberKind) : kind.form.type = kind.type := by
  unfold form
  split <;> rfl

/-- The other member is like this one but for its identity and owner, and for what it stores. -/
structure Member.IsCopy (owner : Option ObjectId) (m other : Member) : Prop where
  name : other.name = m.name
  flags : other.flags = m.flags
  form : other.kind.form = m.kind.form
  owner : other.owner = owner

namespace Member.IsCopy

variable {owner : Option ObjectId} {m other : Member}

theorem type (h : m.IsCopy owner other) : other.type = m.type := by
  rw [Member.type, Member.type, ← MemberKind.type_form, h.form, MemberKind.type_form]

end Member.IsCopy

/-- Lists that are related element by element are related at every place. -/
theorem exists_getElem?_of_forall₂ {α β : Type} {R : α → β → Prop} {as : List α} {bs : List β}
    (h : List.Forall₂ R as bs) {i : Nat} {b : β} (hb : bs[i]? = some b) :
    ∃ a, as[i]? = some a ∧ R a b := by
  induction h generalizing i with
  | nil => simp at hb
  | @cons a b' as bs hab _ ih =>
    cases i with
    | zero =>
      obtain rfl : b' = b := by simpa using hb
      exact ⟨a, rfl, hab⟩
    | succ i => exact ih (by simpa using hb)

theorem exists_mem_of_forall₂ {α β : Type} {R : α → β → Prop} {as : List α} {bs : List β}
    (h : List.Forall₂ R as bs) {b : β} (hb : b ∈ bs) : ∃ a ∈ as, R a b := by
  obtain ⟨i, hi⟩ := List.mem_iff_getElem?.mp hb
  obtain ⟨a, ha, hr⟩ := exists_getElem?_of_forall₂ h hi
  exact ⟨a, List.mem_of_getElem? ha, hr⟩

namespace Store

/-- What a stateful action ensures of each element and keeps of the state, it ensures of all
elements of a list. -/
theorem mapM_forall₂ {σ α β : Type} {P : σ → Prop} {Q : α → β → Prop} {f : α → StateM σ β}
    (hf : ∀ a s, P s → Q a ((f a).run s).1 ∧ P ((f a).run s).2) (as : List α) {s : σ}
    (hs : P s) : List.Forall₂ Q as ((as.mapM f).run s).1 ∧ P ((as.mapM f).run s).2 := by
  induction as generalizing s with
  | nil => exact ⟨.nil, hs⟩
  | cons a as ih =>
    obtain ⟨hfirst, hmiddle⟩ := hf a s hs
    obtain ⟨hrest, hlast⟩ := ih hmiddle
    rw [List.mapM_cons]
    exact ⟨.cons hfirst hrest, hlast⟩

theorem form_copyKind (copy : Member → StateM Store Member) (kind : MemberKind) (s : Store) :
    ((copyKind copy kind).run s).1.form = kind.form := by
  unfold copyKind
  split <;> rfl

theorem isCopy_copyWithin (owner : Option ObjectId) (depth : Nat) (m : Member) (s : Store) :
    m.IsCopy owner ((copyWithin owner depth m).run s).1 := by
  cases depth with
  | zero => exact ⟨rfl, rfl, rfl, rfl⟩
  | succ depth => exact ⟨rfl, rfl, form_copyKind (copyWithin owner depth) m.kind s, rfl⟩

theorem isCopy_copyFor (owner : Option ObjectId) (m : Member) (s : Store) :
    m.IsCopy owner ((copyFor owner m).run s).1 :=
  isCopy_copyWithin owner _ m s

/-! ## What copying leaves true of the store -/

section

variable {I : Store → Prop}
  (hcell : ∀ {s : Store} (c : CellId), I s → I (s.after (addCell (s.cell c))))
  (hid : ∀ {s : Store}, I s → I (s.after nextMemberId))
  (hlist : ∀ {s t : Store} {l : ListId} {owner : Option ObjectId} {copies : NameMap Member},
    I s → I t → List.Forall₂
      (fun entry other => other.1 = entry.1 ∧ entry.2.IsCopy owner other.2)
      (s.list l).entries copies → I (t.after (addList ⟨copies, (s.list l).hiddenCount⟩)))
include hcell hid hlist

/-- A copy stores values that are there already, and lists of copies. -/
theorem invariant_copyWithin (owner : Option ObjectId) (depth : Nat) (m : Member) {s : Store}
    (hs : I s) : I (s.after (copyWithin owner depth m)) := by
  induction depth generalizing m s with
  | zero => exact hid hs
  | succ depth ih =>
    suffices hkind : I (s.after (copyKind (copyWithin owner depth) m.kind)) from hid hkind
    unfold copyKind
    split
    · exact hcell _ hs
    · exact hcell _ hs
    next l inherits _ =>
      obtain ⟨hcopies, hafter⟩ := mapM_forall₂ (P := I)
        (Q := fun entry other : String × Member =>
          other.1 = entry.1 ∧ entry.2.IsCopy owner other.2)
        (f := fun entry => do return (entry.1, ← copyWithin owner depth entry.2))
        (fun entry t ht => ⟨⟨rfl, isCopy_copyWithin owner depth entry.2 t⟩, ih entry.2 ht⟩)
        (s.list l).entries hs
      exact hlist hs hafter hcopies
    · exact hs

theorem invariant_copyFor (owner : Option ObjectId) (m : Member) {s : Store} (hs : I s) :
    I (s.after (copyFor owner m)) := by
  rw [after, copyFor, StateT.run_bind]
  exact invariant_copyWithin hcell hid hlist owner _ m hs

end

/-! ## What copying adds to the store -/

section

variable {R : Store → Store → Prop} [Coherent R] (hcell : ∀ v, Within R (addCell v))
  (hlist : ∀ l, Within R (addList l)) (hid : Within R nextMemberId)
include hcell hlist hid

theorem within_copyWithin (owner : Option ObjectId) (depth : Nat) (m : Member) :
    Within R (copyWithin owner depth m) := by
  induction depth generalizing m with
  | zero => exact hid.bind fun _ => within_pure _
  | succ depth ih =>
    refine Within.bind ?_ fun _ => hid.bind fun _ => within_pure _
    unfold copyKind
    split
    · exact within_get.bind fun _ => (hcell _).bind fun _ => within_pure _
    · exact within_get.bind fun _ => (hcell _).bind fun _ => within_pure _
    · refine Within.bind (within_get.bind fun s => ?_) fun _ => within_pure _
      have hcopy (entry : String × Member) : Within R (do
          return (entry.1, ← copyWithin owner depth entry.2) : StateM Store (String × Member)) :=
        (ih entry.2).bind fun _ => within_pure _
      exact (Within.mapM hcopy _).bind fun _ => hlist _
    · exact within_pure _

theorem within_copyFor (owner : Option ObjectId) (m : Member) : Within R (copyFor owner m) :=
  within_get.bind fun _ => within_copyWithin hcell hlist hid owner _ m

end

end Store

end DynamicMembers
