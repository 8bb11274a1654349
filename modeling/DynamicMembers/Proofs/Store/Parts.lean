import DynamicMembers.Proofs.Store.Copies

/-! # Parts of the store

What a store is made of has an identity: cells, lists, scripts, and the members made so
far. Such a part is never taken away, so an operation is described by the parts whose
content it leaves alone (`Store.Keeps`).

A member has some parts for itself, its cell or its list, and refers to others that
its copies share with it: the cells of variables and base values, and scripts.
-/
namespace DynamicMembers

/-- What a store has of its own, by its identity. -/
inductive Part
  | cell (c : CellId)
  | list (l : ListId)
  | script (i : ScriptId)
  /-- A member, by how many were made before it. -/
  | serial (n : Nat)
  deriving DecidableEq

/-! ## Parts of members -/

namespace MemberKind

def cell? : MemberKind → Option CellId
  | .note c | .captured c => some c
  | _ => none

def list? : MemberKind → Option ListId
  | .memberSet (.list l) _ => some l
  | _ => none

/-- The cell that copies share: that of a variable or of a base value. -/
def sharedCell? : MemberKind → Option CellId
  | .slot target => some target.cell
  | .adapted binding | .method binding | .parameterized binding => some binding.base
  | _ => none

def slot? : MemberKind → Option Variable
  | .slot target => some target
  | _ => none

def scripts : MemberKind → List (ScriptId × RunPolicy)
  | .script getter setter policy => (getter.toList ++ setter.toList).map (·, policy)
  | .scriptMethod i policy => [(i, policy)]
  | _ => []

/-- The parts that a copy does not share. -/
def own (kind : MemberKind) : List Part :=
  kind.cell?.toList.map .cell ++ kind.list?.toList.map .list

@[simp] theorem cell_mem_own {kind : MemberKind} {c : CellId} :
    Part.cell c ∈ kind.own ↔ kind.cell? = some c := by
  simp [own]

@[simp] theorem list_mem_own {kind : MemberKind} {l : ListId} :
    Part.list l ∈ kind.own ↔ kind.list? = some l := by
  simp [own]

theorem own_eq_nil {kind : MemberKind} (hc : kind.cell? = none) (hl : kind.list? = none) :
    kind.own = [] := by
  simp [own, hc, hl]

section

variable {kind other : MemberKind}

theorem list?_of_form (h : other.form = kind.form) : other.list?.isSome = kind.list?.isSome := by
  have hform (kind : MemberKind) : kind.form.list?.isSome = kind.list?.isSome := by
    unfold form
    split <;> rfl
  rw [← hform other, h, hform]

theorem cell?_of_form (h : other.form = kind.form) : other.cell?.isSome = kind.cell?.isSome := by
  have hform (kind : MemberKind) : kind.form.cell?.isSome = kind.cell?.isSome := by
    unfold form
    split <;> rfl
  rw [← hform other, h, hform]

theorem sharedCell?_of_form (h : other.form = kind.form) :
    other.sharedCell? = kind.sharedCell? := by
  have hform (kind : MemberKind) : kind.form.sharedCell? = kind.sharedCell? := by
    unfold form
    split <;> rfl
  rw [← hform other, h, hform]

theorem slot?_of_form (h : other.form = kind.form) : other.slot? = kind.slot? := by
  have hform (kind : MemberKind) : kind.form.slot? = kind.slot? := by
    unfold form
    split <;> rfl
  rw [← hform other, h, hform]

theorem scripts_of_form (h : other.form = kind.form) : other.scripts = kind.scripts := by
  have hform (kind : MemberKind) : kind.form.scripts = kind.scripts := by
    unfold form
    split <;> rfl
  rw [← hform other, h, hform]

theorem exists_memberSet_of_list? {l : ListId} (h : kind.list? = some l) :
    ∃ inherits, kind = .memberSet (.list l) inherits := by
  unfold list? at h
  split at h
  next k inherits => exact ⟨inherits, by rw [Option.some.inj h]⟩
  next => cases h

theorem exists_note_of_form {c : CellId} (h : kind.form = (MemberKind.note c).form) :
    ∃ k, kind = .note k := by
  unfold form at h
  split at h
  next k => exact ⟨k, rfl⟩
  · cases h
  · cases h
  next hnot _ _ => exact absurd h (hnot ⟨0⟩)

theorem exists_list_of_form {l : ListId} {inherits : Bool}
    (h : kind.form = (MemberKind.memberSet (.list l) inherits).form) :
    ∃ k, kind = .memberSet (.list k) inherits := by
  unfold form at h
  split at h
  · cases h
  · cases h
  next k inherits' =>
    cases h
    exact ⟨k, rfl⟩
  next _ _ hnot => exact absurd h (hnot ⟨0⟩ inherits)

theorem form_eq_self (hc : kind.cell? = none) (hl : kind.list? = none) : kind.form = kind := by
  unfold form
  split
  · cases hc
  · cases hc
  · cases hl
  · rfl

/-- A kind that keeps nothing for itself is the same in every copy. -/
theorem eq_of_form (hc : kind.cell? = none) (hl : kind.list? = none)
    (h : other.form = kind.form) : other = kind := by
  have hc' : other.cell? = none := by simpa [hc] using cell?_of_form h
  have hl' : other.list? = none := by simpa [hl] using list?_of_form h
  rwa [form_eq_self hc' hl', form_eq_self hc hl] at h

end

end MemberKind

namespace Member

def serial? (m : Member) : Option Nat :=
  match m.id with
  | .made n => some n
  | _ => none

/-- The parts that belong to the member alone, its identity among them. -/
def own (m : Member) : List Part :=
  m.serial?.toList.map .serial ++ m.kind.own

theorem mem_own_of_kind {m : Member} {p : Part} (h : p ∈ m.kind.own) : p ∈ m.own :=
  List.mem_append_right _ h

end Member

/-! ## What is said of objects -/

namespace Store

variable {s t : Store}

theorem object?_congr (h : t.objects = s.objects) : t.object? = s.object? := by
  funext o
  rw [object?, object?, h]

theorem isAlive_congr (h : t.objects = s.objects) : t.isAlive = s.isAlive := by
  funext o
  rw [isAlive, isAlive, object?_congr h]

theorem typeNames_congr (h : t.objects = s.objects) : t.typeNames = s.typeNames := by
  funext o
  rw [typeNames, typeNames, object?_congr h]

end Store

/-! ## Parts of stores -/

namespace Store

def Has (s : Store) : Part → Prop
  | .cell c => c.index < s.cells.size
  | .list l => l.index < s.lists.size
  | .script i => i.index < s.scripts.size
  | .serial n => n < s.made

instance (s : Store) (p : Part) : Decidable (s.Has p) := by
  cases p <;> exact inferInstanceAs (Decidable (_ < _))

@[simp] theorem has_setCell {s : Store} {c : CellId} {v : Value} {p : Part} :
    (s.setCell c v).Has p ↔ s.Has p := by
  cases p <;> simp [Has, setCell]

@[simp] theorem has_setList {s : Store} {l : ListId} {members : MemberList} {p : Part} :
    (s.setList l members).Has p ↔ s.Has p := by
  cases p <;> simp [Has, setList]

theorem cell_setCell_of_ne {s : Store} {c k : CellId} (h : k ≠ c) (v : Value) :
    (s.setCell c v).cell k = s.cell k := by
  have hindex : c.index ≠ k.index := fun he => h (by
    cases k
    cases c
    exact congrArg CellId.mk he.symm)
  simp [cell, setCell, hindex]

theorem cell_setCell_self {s : Store} {c : CellId} (h : s.Has (.cell c)) (v : Value) :
    (s.setCell c v).cell c = v := by
  have hindex : c.index < s.cells.size := h
  simp [cell, setCell, hindex]

theorem list_setList_of_ne {s : Store} {l k : ListId} (h : k ≠ l) (members : MemberList) :
    (s.setList l members).list k = s.list k := by
  have hindex : l.index ≠ k.index := fun he => h (by
    cases k
    cases l
    exact congrArg ListId.mk he.symm)
  simp [list, setList, hindex]

theorem list_of_not_has {s : Store} {l : ListId} (h : ¬ s.Has (.list l)) : s.list l = .empty := by
  rw [list, Array.getElem?_eq_none (Nat.le_of_not_lt h)]
  rfl

theorem has_of_mem_list {s : Store} {l : ListId} {m : Member} (h : m ∈ (s.list l).members) :
    s.Has (.list l) := by
  refine Decidable.byContradiction fun hl => ?_
  rw [list_of_not_has hl] at h
  cases h

/-- All parts of these that the first store has are in the second, with the same content. -/
structure Keeps (P : Part → Prop) (s t : Store) : Prop where
  has : ∀ {p}, P p → s.Has p → t.Has p
  cell : ∀ {c}, P (.cell c) → s.Has (.cell c) → t.cell c = s.cell c
  list : ∀ {l}, P (.list l) → s.Has (.list l) → t.list l = s.list l

namespace Keeps

variable {P Q : Part → Prop} {s t u : Store}

theorem refl (s : Store) : Keeps P s s := ⟨fun _ h => h, fun _ _ => rfl, fun _ _ => rfl⟩

theorem trans_of (h : Keeps P s t) (hrest : Keeps Q t u) (hPQ : ∀ p, P p → s.Has p → Q p) :
    Keeps P s u where
  has hp hs := hrest.has (hPQ _ hp hs) (h.has hp hs)
  cell hp hs := (hrest.cell (hPQ _ hp hs) (h.has hp hs)).trans (h.cell hp hs)
  list hp hs := (hrest.list (hPQ _ hp hs) (h.has hp hs)).trans (h.list hp hs)

theorem trans (h : Keeps P s t) (hrest : Keeps P t u) : Keeps P s u :=
  h.trans_of hrest fun _ hp _ => hp

theorem weaken (h : Keeps P s t) (hQ : ∀ p, Q p → P p) : Keeps Q s t where
  has hp := h.has (hQ _ hp)
  cell hp := h.cell (hQ _ hp)
  list hp := h.list (hQ _ hp)

/-- Cells and lists are the same in both stores, and nothing was taken away. -/
theorem of_same (hcells : t.cells = s.cells) (hlists : t.lists = s.lists)
    (hscripts : s.scripts.size ≤ t.scripts.size) (hmade : s.made ≤ t.made) : Keeps P s t where
  has {p} _ hs := by
    cases p with
    | cell c => rwa [Has, hcells]
    | list l => rwa [Has, hlists]
    | script i => exact Nat.lt_of_lt_of_le hs hscripts
    | serial n => exact Nat.lt_of_lt_of_le hs hmade
  cell _ _ := by rw [Store.cell, Store.cell, hcells]
  list _ _ := by rw [Store.list, Store.list, hlists]

theorem setCell {c : CellId} (h : ∀ k, P (.cell k) → k ≠ c) (v : Value) :
    Keeps P s (s.setCell c v) where
  has _ hs := has_setCell.mpr hs
  cell {k} hk _ := cell_setCell_of_ne (h k hk) v
  list _ _ := rfl

theorem setList {l : ListId} (h : ∀ k, P (.list k) → k ≠ l) (members : MemberList) :
    Keeps P s (s.setList l members) where
  has _ hs := has_setList.mpr hs
  cell _ _ := rfl
  list {k} hk _ := list_setList_of_ne (h k hk) members

theorem setList_announced {l : ListId} (h : ∀ k, P (.list k) → k ≠ l) (members : MemberList)
    (announced : Array Announcement) :
    Keeps P s { s.setList l members with announced := announced } :=
  (Keeps.setList h members).trans (.of_same rfl rfl (Nat.le_refl _) (Nat.le_refl _))

theorem addCell (v : Value) : Keeps P s (s.after (Store.addCell v)) where
  has {p} _ hs := by
    cases p with
    | cell c => exact Nat.lt_of_lt_of_le hs (by simp [after, Store.addCell, StateT.run])
    | _ => exact hs
  cell {c} _ hs := by
    show (s.cells.push v)[c.index]?.getD .null = _
    rw [Array.getElem?_push_lt hs, Store.cell, Array.getElem?_eq_getElem hs]
  list _ _ := rfl

theorem addList (members : MemberList) : Keeps P s (s.after (Store.addList members)) where
  has {p} _ hs := by
    cases p with
    | list l => exact Nat.lt_of_lt_of_le hs (by simp [after, Store.addList, StateT.run])
    | _ => exact hs
  cell _ _ := rfl
  list {l} _ hs := by
    show (s.lists.push members)[l.index]?.getD .empty = _
    rw [Array.getElem?_push_lt hs, Store.list, Array.getElem?_eq_getElem hs]

theorem nextMemberId : Keeps P s (s.after Store.nextMemberId) :=
  of_same rfl rfl (Nat.le_refl _) (Nat.le_succ _)

end Keeps

@[simp] theorem size_addList (s : Store) (members : MemberList) :
    (s.after (addList members)).lists.size = s.lists.size + 1 :=
  Array.size_push _

theorem has_addList_self (s : Store) (members : MemberList) :
    (s.after (addList members)).Has (.list ⟨s.lists.size⟩) :=
  Nat.lt_of_lt_of_eq (Nat.lt_succ_self _) (size_addList s members).symm

@[simp] theorem list_addList_self (s : Store) (members : MemberList) :
    (s.after (addList members)).list ⟨s.lists.size⟩ = members := by
  simp [after, addList, StateT.run, list]

theorem has_addCell_self (s : Store) (v : Value) :
    (s.after (addCell v)).Has (.cell ⟨s.cells.size⟩) :=
  Nat.lt_of_lt_of_eq (Nat.lt_succ_self _) (Array.size_push _).symm

@[simp] theorem cell_addCell_self (s : Store) (v : Value) :
    (s.after (addCell v)).cell ⟨s.cells.size⟩ = v := by
  simp [after, addCell, StateT.run, cell]

/-- Nothing that the first store has is different in the second, but there may be more cells,
lists and members. -/
structure Enlarges (s t : Store) : Prop where
  keeps : Keeps (fun _ => True) s t
  rest : t = { s with cells := t.cells, lists := t.lists, made := t.made }

instance : Coherent Enlarges where
  refl s := ⟨.refl s, rfl⟩
  trans {s t u} h hrest := by
    refine ⟨h.keeps.trans hrest.keeps, hrest.rest.trans ?_⟩
    conv => lhs; rw [h.rest]

theorem enlarges_addCell (v : Value) : Within Enlarges (addCell v) :=
  fun _ => ⟨.addCell v, rfl⟩

theorem enlarges_addList (members : MemberList) : Within Enlarges (addList members) :=
  fun _ => ⟨.addList members, rfl⟩

theorem enlarges_nextMemberId : Within Enlarges nextMemberId :=
  fun _ => ⟨.nextMemberId, rfl⟩

theorem enlarges_copyWithin (owner : Option ObjectId) (depth : Nat) (m : Member) :
    Within Enlarges (copyWithin owner depth m) :=
  within_copyWithin enlarges_addCell enlarges_addList enlarges_nextMemberId owner depth m

theorem enlarges_copyFor (owner : Option ObjectId) (m : Member) :
    Within Enlarges (copyFor owner m) :=
  within_copyFor enlarges_addCell enlarges_addList enlarges_nextMemberId owner m

namespace Enlarges

variable {s t : Store}

theorem has (h : s.Enlarges t) {p : Part} (hp : s.Has p) : t.Has p := h.keeps.has trivial hp

theorem cell (h : s.Enlarges t) {c : CellId} (hc : s.Has (.cell c)) : t.cell c = s.cell c :=
  h.keeps.cell trivial hc

theorem list (h : s.Enlarges t) {l : ListId} (hl : s.Has (.list l)) : t.list l = s.list l :=
  h.keeps.list trivial hl

theorem scripts (h : s.Enlarges t) : t.scripts = s.scripts := by rw [h.rest]

theorem objects (h : s.Enlarges t) : t.objects = s.objects := by rw [h.rest]

theorem types (h : s.Enlarges t) : t.types = s.types := by rw [h.rest]

theorem shelf (h : s.Enlarges t) : t.shelf = s.shelf := by rw [h.rest]

theorem announced (h : s.Enlarges t) : t.announced = s.announced := by rw [h.rest]

theorem modes (h : s.Enlarges t) : t.modes = s.modes := by rw [h.rest]

end Enlarges

end Store

end DynamicMembers
