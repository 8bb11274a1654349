import DynamicMembers.Declaration.OfToml
import DynamicMembers.Proofs.Store.WellNamed
import DynamicMembers.Value.Conversion

/-! # Members in values

A value can have members in it, at any depth of its lists and maps. Who is given the
value is given those. Conversion adds none, and what is read from a document has none at
all (`Toml.members_of_value?`).
-/
namespace DynamicMembers

theorem exists_of_bind_eq_ok {ε α β : Type} {x : Except ε α} {f : α → Except ε β} {b : β}
    (h : x >>= f = .ok b) : ∃ a, x = .ok a ∧ f a = .ok b := by
  cases x with
  | error failure => cases h
  | ok a => exact ⟨a, rfl, h⟩

namespace Value

mutual

/-- The members in a value, at any depth of its lists and maps. -/
def members : Value → List Member
  | member m => [m]
  | list items => itemMembers items
  | map entries => entryMembers entries
  | _ => []

def itemMembers : List Value → List Member
  | [] => []
  | v :: rest => members v ++ itemMembers rest

def entryMembers : List (String × Value) → List Member
  | [] => []
  | (_, v) :: rest => members v ++ entryMembers rest

end

variable {items : List Value} {entries : List (String × Value)} {m : Member} {v : Value}

theorem mem_itemMembers : m ∈ itemMembers items ↔ ∃ v ∈ items, m ∈ v.members := by
  induction items with
  | nil => simp [itemMembers]
  | cons v rest ih => simp [itemMembers, ih]

theorem mem_entryMembers : m ∈ entryMembers entries ↔ ∃ entry ∈ entries, m ∈ entry.2.members := by
  induction entries with
  | nil => simp [entryMembers]
  | cons entry rest ih => simp [entryMembers, ih]

@[simp] theorem mem_members_list : m ∈ (list items).members ↔ ∃ v ∈ items, m ∈ v.members := by
  rw [members, mem_itemMembers]

@[simp] theorem mem_members_map :
    m ∈ (map entries).members ↔ ∃ entry ∈ entries, m ∈ entry.2.members := by
  rw [members, mem_entryMembers]

theorem members_list_eq_nil (h : ∀ v ∈ items, v.members = []) : (list items).members = [] :=
  List.eq_nil_iff_forall_not_mem.mpr fun m hm => by
    obtain ⟨v, hv, hm⟩ := mem_members_list.mp hm
    rw [h v hv] at hm
    cases hm

theorem members_map_eq_nil (h : ∀ entry ∈ entries, entry.2.members = []) :
    (map entries).members = [] :=
  List.eq_nil_iff_forall_not_mem.mpr fun m hm => by
    obtain ⟨entry, hentry, hm⟩ := mem_members_map.mp hm
    rw [h entry hentry] at hm
    cases hm

/-- A conversion may put a value into a list, and otherwise makes a value without members. -/
theorem members_of_convertTo {write : Value → String} {target : ValueType} {converted : Value}
    (h : v.convertTo write target = .ok converted) : converted.members ⊆ v.members := by
  unfold convertTo at h
  split at h
  · cases h
    exact List.Subset.refl _
  · split at h
    next hchange =>
      cases h
      cases target <;> simp only [changeType?, Option.map_eq_some_iff, Option.some.injEq,
        reduceCtorEq] at hchange
      case any => exact hchange ▸ List.Subset.refl _
      case list =>
        subst hchange
        cases v <;> simp [members, itemMembers]
      case int | float =>
        obtain ⟨n, -, rfl⟩ := hchange
        simp [members]
      all_goals
        subst hchange
        simp [members]
    next => cases h

end Value

theorem NameMap.mem_ofList {α : Type} {entries : List (String × α)} {entry : String × α}
    (h : entry ∈ NameMap.ofList entries) : ∃ given ∈ entries, given.2 = entry.2 := by
  suffices hfold : ∀ start : NameMap α, ∀ entry ∈ entries.foldl
      (fun m entry => NameMap.insert entry.1 entry.2 m) start,
      entry ∈ start ∨ ∃ given ∈ entries, given.2 = entry.2 from
    (hfold [] entry h).resolve_left List.not_mem_nil
  clear h
  induction entries with
  | nil => exact fun start entry h => .inl h
  | cons first rest ih =>
    intro start entry h
    rcases ih (NameMap.insert first.1 first.2 start) entry h with hstart | ⟨given, hgiven, he⟩
    · rcases NameMap.mem_insert hstart with hold | ⟨-, he⟩
      · exact .inl hold
      · exact .inr ⟨first, List.mem_cons_self, he.symm⟩
    · exact .inr ⟨given, List.mem_cons_of_mem _ hgiven, he⟩

/-! ## Values from documents -/

namespace Toml

theorem members_of_markedMoment? {entries : List (String × Toml)} {marked : Option Value}
    {v : Value} (h : markedMoment? entries = some marked) (hv : marked = some v) :
    v.members = [] := by
  subst hv
  unfold markedMoment? at h
  split at h
  · cases h
  · split at h
    · replace h := Option.some.inj h
      split at h
      · split at h
        · cases h
          rfl
        · cases h
      · cases h
    · cases h

mutual

theorem members_of_value? : ∀ (t : Toml) {v : Value}, t.value? = some v → v.members = []
  | .string _, _, h | .integer _, _, h | .float _, _, h | .boolean _, _, h | .moment _, _, h => by
    cases Option.some.inj h
    rfl
  | .array items, v, h => by
    rw [value?] at h
    obtain ⟨vs, hvs, rfl⟩ := Option.map_eq_some_iff.mp h
    exact Value.members_list_eq_nil (members_of_itemValues? items hvs)
  | .table entries, v, h => by
    rw [value?] at h
    split at h
    next hmarked => exact members_of_markedMoment? hmarked h
    next =>
      obtain ⟨vs, hvs, rfl⟩ := Option.map_eq_some_iff.mp h
      refine Value.members_map_eq_nil fun entry hentry => ?_
      obtain ⟨given, hgiven, he⟩ := NameMap.mem_ofList hentry
      rw [← he]
      exact members_of_entryValues? entries hvs given (List.mem_mergeSort.mp hgiven)

theorem members_of_itemValues? : ∀ (items : List Toml) {vs : List Value},
    itemValues? items = some vs → ∀ v ∈ vs, v.members = []
  | [], _, h => by
    cases Option.some.inj h
    simp
  | t :: rest, vs, h => by
    rw [itemValues?] at h
    obtain ⟨first, hfirst, others, hothers, rfl⟩ := by
      simpa only [Option.bind_eq_bind, Option.bind_eq_some_iff, Option.some.injEq] using h
    exact List.forall_mem_cons.mpr
      ⟨members_of_value? t hfirst, members_of_itemValues? rest hothers⟩

theorem members_of_entryValues? : ∀ (entries : List (String × Toml)) {vs : List (String × Value)},
    entryValues? entries = some vs → ∀ entry ∈ vs, entry.2.members = []
  | [], _, h => by
    cases Option.some.inj h
    simp
  | (key, t) :: rest, vs, h => by
    rw [entryValues?] at h
    obtain ⟨first, hfirst, others, hothers, rfl⟩ := by
      simpa only [Option.bind_eq_bind, Option.bind_eq_some_iff, Option.some.injEq] using h
    exact List.forall_mem_cons.mpr
      ⟨members_of_value? t hfirst, members_of_entryValues? rest hothers⟩

end

end Toml

/-! ## Declarations from documents -/

mutual

def DeclaredKind.values : DeclaredKind → List Value
  | .note v => [v]
  | .memberSet _ members => MemberDeclaration.allValues members
  | _ => []

def MemberDeclaration.values : MemberDeclaration → List Value
  | .declare _ _ kind => kind.values

def MemberDeclaration.allValues : List MemberDeclaration → List Value
  | [] => []
  | declaration :: rest => declaration.values ++ MemberDeclaration.allValues rest

end

/-- A note is declared with a value of the document, and a member set with the members nested in
it. -/
theorem DeclaredKind.values_of_ofEntries? {entries : List (String × Toml)}
    {nested : Option (List MemberDeclaration)} {kind : DeclaredKind}
    (h : ofEntries? entries nested = some kind)
    (hnested : ∀ declarations, nested = some declarations →
      ∀ v ∈ MemberDeclaration.allValues declarations, v.members = []) :
    ∀ v ∈ kind.values, v.members = [] := by
  unfold ofEntries? at h
  obtain ⟨kindName, -, h⟩ := Option.bind_eq_some_iff.mp h
  split at h
  case h_1 =>
    obtain ⟨v, hv, h⟩ := Option.bind_eq_some_iff.mp h
    cases Option.some.inj h
    obtain ⟨t, -, ht⟩ := Option.bind_eq_some_iff.mp hv
    simpa [values] using Toml.members_of_value? t ht
  case h_8 =>
    obtain ⟨inherits, -, h⟩ := Option.bind_eq_some_iff.mp h
    obtain ⟨declarations, hdeclarations, h⟩ := Option.bind_eq_some_iff.mp h
    cases Option.some.inj h
    rw [values]
    exact hnested declarations hdeclarations
  case h_9 => cases h
  -- Nothing else that is declared has values of its own.
  all_goals
    cases kind with
    | note v => simp [Option.bind_eq_some_iff] at h
    | memberSet inherits members => simp [Option.bind_eq_some_iff] at h
    | _ => simp [values]

namespace MemberDeclaration

mutual

theorem values_of_ofToml? : ∀ (t : Toml) {declaration : MemberDeclaration},
    ofToml? t = some declaration → ∀ v ∈ declaration.values, v.members = []
  | .table entries, declaration, h => by
    rw [ofToml?] at h
    obtain ⟨name, -, h⟩ := Option.bind_eq_some_iff.mp h
    obtain ⟨hidden, -, h⟩ := Option.bind_eq_some_iff.mp h
    obtain ⟨kind, hkind, h⟩ := Option.bind_eq_some_iff.mp h
    cases Option.some.inj h
    exact DeclaredKind.values_of_ofEntries? hkind fun _ hnested =>
      values_of_nestedIn? entries hnested
  | .string _, _, h | .integer _, _, h | .float _, _, h | .boolean _, _, h | .moment _, _, h
  | .array _, _, h => by
    rw [ofToml?] at h
    · cases h
    · nofun

theorem values_of_nestedIn? : ∀ (entries : List (String × Toml))
    {declarations : List MemberDeclaration}, nestedIn? entries = some declarations →
    ∀ v ∈ allValues declarations, v.members = []
  | [], _, h => by
    rw [nestedIn?] at h
    cases Option.some.inj h
    simp [allValues]
  | (key, t) :: rest, _, h => by
    rw [nestedIn?] at h
    split at h
    · exact values_of_allOf? t h
    · exact values_of_nestedIn? rest h

theorem values_of_allOf? : ∀ (t : Toml) {declarations : List MemberDeclaration},
    allOf? t = some declarations → ∀ v ∈ allValues declarations, v.members = []
  | .array items, _, h => by
    rw [allOf?] at h
    exact values_of_eachOf? items h
  | .string _, _, h | .integer _, _, h | .float _, _, h | .boolean _, _, h | .moment _, _, h
  | .table _, _, h => by
    rw [allOf?] at h
    · cases h
    · nofun

theorem values_of_eachOf? : ∀ (items : List Toml) {declarations : List MemberDeclaration},
    eachOf? items = some declarations → ∀ v ∈ allValues declarations, v.members = []
  | [], _, h => by
    rw [eachOf?] at h
    cases Option.some.inj h
    simp [allValues]
  | t :: rest, _, h => by
    rw [eachOf?] at h
    obtain ⟨first, hfirst, h⟩ := Option.bind_eq_some_iff.mp h
    obtain ⟨others, hothers, h⟩ := Option.bind_eq_some_iff.mp h
    cases Option.some.inj h
    intro v hv
    rcases List.mem_append.mp hv with hv | hv
    · exact values_of_ofToml? t hfirst v hv
    · exact values_of_eachOf? rest hothers v hv

end

end MemberDeclaration

theorem exists_mem_of_mapM {α β : Type} {f : α → Option β} {as : List α} {bs : List β}
    (h : as.mapM f = some bs) {b : β} (hb : b ∈ bs) : ∃ a ∈ as, f a = some b := by
  induction as generalizing bs with
  | nil =>
    cases Option.some.inj h
    cases hb
  | cons a rest ih =>
    rw [List.mapM_cons] at h
    obtain ⟨first, hfirst, h⟩ := Option.bind_eq_some_iff.mp h
    obtain ⟨others, hothers, h⟩ := Option.bind_eq_some_iff.mp h
    cases Option.some.inj h
    rcases List.mem_cons.mp hb with rfl | hb
    · exact ⟨a, List.mem_cons_self, hfirst⟩
    · obtain ⟨a, ha, hfa⟩ := ih hothers hb
      exact ⟨a, List.mem_cons_of_mem _ ha, hfa⟩

/-- No document declares a note whose value has members in it. -/
theorem TypeDeclaration.values_of_ofDocument? {text : String} {declarations : List TypeDeclaration}
    (h : ofDocument? text = some declarations) : ∀ declaration ∈ declarations,
    ∀ v ∈ MemberDeclaration.allValues declaration.members, v.members = [] := by
  have htype {t : Toml} {declaration : TypeDeclaration} (h : ofToml? t = some declaration) :
      ∀ v ∈ MemberDeclaration.allValues declaration.members, v.members = [] := by
    unfold ofToml? at h
    split at h
    · obtain ⟨name, -, h⟩ := Option.bind_eq_some_iff.mp h
      obtain ⟨members, hmembers, h⟩ := Option.bind_eq_some_iff.mp h
      cases Option.some.inj h
      exact MemberDeclaration.values_of_nestedIn? _ hmembers
    · obtain ⟨name, -, h⟩ := Option.bind_eq_some_iff.mp h
      obtain ⟨members, hmembers, h⟩ := Option.bind_eq_some_iff.mp h
      cases Option.some.inj h
      exact MemberDeclaration.values_of_allOf? _ hmembers
    · obtain ⟨name, -, h⟩ := Option.bind_eq_some_iff.mp h
      cases Option.some.inj h
      simp [MemberDeclaration.allValues]
    · cases h
  obtain ⟨entries, -, h⟩ := Option.bind_eq_some_iff.mp h
  unfold Toml.optional at h
  split at h
  · dsimp only at h
    split at h
    · intro declaration hdeclaration
      obtain ⟨t, -, ht⟩ := exists_mem_of_mapM h hdeclaration
      exact htype ht
    · cases h
  · cases Option.some.inj h
    simp

end DynamicMembers
