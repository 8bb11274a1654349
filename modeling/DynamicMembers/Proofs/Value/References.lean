import DynamicMembers.Value.Conversion
import DynamicMembers.Value.Text

/-! # Texts of values

A value is made of objects, members and plain parts. Its text is put together from theirs: it has
one if all objects and members in it have one (`Value.isSome_textWith`), and finding more texts
changes none that was found (`Value.textWith_mono`). A conversion asks for the text of the value
itself or for none.
-/
namespace DynamicMembers

/-- What a value refers to the store for. -/
inductive Reference
  | object (o : ObjectId)
  | member (m : Member)
  deriving DecidableEq

namespace Reference

def value : Reference → Value
  | object o => .object o
  | member m => .member m

end Reference

namespace Value

mutual

/-- The objects and members in a value, at any depth of its lists and maps. -/
def references : Value → List Reference
  | object o => [.object o]
  | member m => [.member m]
  | list items => itemReferences items
  | map entries => entryReferences entries
  | _ => []

def itemReferences : List Value → List Reference
  | [] => []
  | v :: rest => references v ++ itemReferences rest

def entryReferences : List (String × Value) → List Reference
  | [] => []
  | (_, v) :: rest => references v ++ entryReferences rest

end

variable {r : Reference} {items : List Value} {entries : List (String × Value)}

theorem mem_itemReferences : r ∈ itemReferences items ↔ ∃ v ∈ items, r ∈ v.references := by
  induction items with
  | nil => simp [itemReferences]
  | cons v rest ih => simp [itemReferences, ih]

theorem mem_entryReferences :
    r ∈ entryReferences entries ↔ ∃ entry ∈ entries, r ∈ entry.2.references := by
  induction entries with
  | nil => simp [entryReferences]
  | cons entry rest ih => simp [entryReferences, ih]

mutual

theorem length_references : ∀ v : Value, v.references.length = v.referenceCount
  | null | boolean _ | int _ | float _ | string _ | object _ | member _ => rfl
  | list items => length_itemReferences items
  | map entries => length_entryReferences entries

theorem length_itemReferences : ∀ items : List Value,
    (itemReferences items).length = itemReferenceCount items
  | [] => rfl
  | v :: rest => by
    rw [itemReferences, List.length_append, length_references v, length_itemReferences rest]
    rfl

theorem length_entryReferences : ∀ entries : List (String × Value),
    (entryReferences entries).length = entryReferenceCount entries
  | [] => rfl
  | (_, v) :: rest => by
    rw [entryReferences, List.length_append, length_references v, length_entryReferences rest]
    rfl

end

/-! ## Texts -/

section

variable {refer other : Value → Option String}

mutual

theorem isSome_textWith : ∀ v : Value,
    (v.textWith refer).isSome = true ↔ ∀ r ∈ v.references, (refer r.value).isSome = true
  | null | boolean _ | int _ | float _ | string _ => by simp [textWith, references]
  | object _ | member _ => by simp [textWith, references, Reference.value]
  | list items => by
    rw [textWith, Option.isSome_map, references]
    exact isSome_itemTexts items
  | map entries => by
    rw [textWith, Option.isSome_map, references]
    exact isSome_entryTexts entries

theorem isSome_itemTexts : ∀ items : List Value,
    (itemTexts refer items).isSome = true ↔
      ∀ r ∈ itemReferences items, (refer r.value).isSome = true
  | [] => by simp [itemTexts, itemReferences]
  | v :: rest => by
    rw [itemReferences, List.forall_mem_append, ← isSome_textWith v, ← isSome_itemTexts rest,
      itemTexts]
    cases v.textWith refer <;> cases itemTexts refer rest <;> simp

theorem isSome_entryTexts : ∀ entries : List (String × Value),
    (entryTexts refer entries).isSome = true ↔
      ∀ r ∈ entryReferences entries, (refer r.value).isSome = true
  | [] => by simp [entryTexts, entryReferences]
  | (_, v) :: rest => by
    rw [entryReferences, List.forall_mem_append, ← isSome_textWith v, ← isSome_entryTexts rest,
      entryTexts]
    cases v.textWith refer <;> cases entryTexts refer rest <;> simp

end

def Finds (refer other : Value → Option String) : Prop :=
  ∀ r t, refer r = some t → other r = some t

mutual

theorem textWith_mono (h : Finds refer other) : ∀ {v : Value} {t : String},
    v.textWith refer = some t → v.textWith other = some t
  | null, _, ht | boolean _, _, ht | int _, _, ht | float _, _, ht | string _, _, ht => ht
  | object _, _, ht | member _, _, ht => h _ _ ht
  | list items, t, ht => by
    obtain ⟨texts, htexts, rfl⟩ := Option.map_eq_some_iff.mp ht
    rw [textWith, itemTexts_mono h htexts, Option.map_some]
  | map entries, t, ht => by
    obtain ⟨texts, htexts, rfl⟩ := Option.map_eq_some_iff.mp ht
    rw [textWith, entryTexts_mono h htexts, Option.map_some]

theorem itemTexts_mono (h : Finds refer other) : ∀ {items : List Value} {texts : List String},
    itemTexts refer items = some texts → itemTexts other items = some texts
  | [], _, ht => ht
  | v :: rest, texts, ht => by
    obtain ⟨text, htext, ht⟩ := Option.bind_eq_some_iff.mp ht
    obtain ⟨others, hothers, ht⟩ := Option.bind_eq_some_iff.mp ht
    rw [itemTexts, textWith_mono h htext, itemTexts_mono h hothers]
    exact ht

theorem entryTexts_mono (h : Finds refer other) :
    ∀ {entries : List (String × Value)} {texts : List String},
      entryTexts refer entries = some texts → entryTexts other entries = some texts
  | [], _, ht => ht
  | (_, v) :: rest, texts, ht => by
    obtain ⟨text, htext, ht⟩ := Option.bind_eq_some_iff.mp ht
    obtain ⟨others, hothers, ht⟩ := Option.bind_eq_some_iff.mp ht
    rw [entryTexts, textWith_mono h htext, entryTexts_mono h hothers]
    exact ht

end

/-! ## Conversions -/

variable {v : Value} {target : ValueType}

/-- Only a text tells what was written. -/
theorem changeType?_congr (write other : Value → String) (h : target ≠ .string) :
    v.changeType? write target = v.changeType? other target := by
  cases target with
  | string => exact absurd rfl h
  | _ => rfl

/-- A value that is written becomes a text, or is in the failure. -/
theorem convertTo_of_written (h : v.isWrittenFor target = true) (write : Value → String) :
    v.convertTo write target = if target = .string then .ok (.string (write v))
      else .error ⟨write v, v.type, target⟩ := by
  obtain ⟨hother, hwritten⟩ := Bool.and_eq_true_iff.mp h
  have hother : ¬ (target = .any ∨ v.type = target) := by simpa using hother
  rw [convertTo, if_neg hother]
  by_cases hstring : target = .string
  · subst hstring
    rfl
  · have hchange : v.changeType? write target = none := by
      rw [changeType?_congr write (fun _ => "") hstring]
      simpa [hstring] using hwritten
    rw [hchange, if_neg hstring]
    rfl

end

end Value

end DynamicMembers
