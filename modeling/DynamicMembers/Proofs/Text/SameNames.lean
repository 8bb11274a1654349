import DynamicMembers.NameMap.Hashing

/-! # One notion of the same name

Names are compared, lowered and hashed apart from one another, and all three agree: two names are
the same exactly if they have one expansion, and exactly if they write the same into a hash. A
comparison may look at the bytes first: where these agree but for the case of ASCII letters, the
expansions are equal, whatever else the names consist of (`fold_eq_of_sameAscii`). So a table that
puts its entries away by hash finds a key exactly if it has the expansion of the name, and what it
finds is what `NameMap.lookup` finds (`sameName_coincides`).
-/
namespace DynamicMembers

/-! ## Comparing bytes -/

/-- A letter in lower case has the expansion that it has in upper case. -/
theorem lowercase_toLower (c : Char) : lowercase c.toLower = lowercase c := by
  by_cases hc : c.toNat < 128
  · have hlower : ∀ n < 128, (Char.ofNat n).toLower.toNat < 128 ∧
        (Char.ofNat n).toLower.toLower = (Char.ofNat n).toLower := by
      decide
    obtain ⟨hascii, hagain⟩ := Char.ofNat_toNat c ▸ hlower c.toNat hc
    rw [lowercase_of_ascii hascii, hagain, lowercase_of_ascii hc]
  · rw [toLower_of_le (Nat.not_lt.mp hc)]

theorem fold_eq_of_sameAscii {a b : String} (h : sameAscii a b = true) : fold a = fold b := by
  have hfold (s : String) : fold s = (s.toList.map Char.toLower).flatMap lowercase := by
    simp only [fold, List.flatMap_map, lowercase_toLower]
  rw [hfold, hfold, sameAscii_iff.mp h]

/-- The bytes decide where they agree but for the case of ASCII letters, else the expansions do. -/
theorem sameName_eq (a b : String) : sameName a b = (sameAscii a b || fold a == fold b) := by
  rw [Bool.eq_iff_iff, sameName_iff, Bool.or_eq_true, beq_iff_eq]
  constructor
  · exact .inr
  · rintro (h | h)
    · exact fold_eq_of_sameAscii h
    · exact h

/-! ## Hashes -/

theorem sameName_iff_hashWrites {a b : String} :
    sameName a b = true ↔ hashWrites a = hashWrites b :=
  sameName_iff.trans hashWrites_eq_iff.symm

/-- Names that no hash tells apart are the same: what one of them writes could have a hash of its
own. -/
theorem sameName_iff_hash {a b : String} : sameName a b = true ↔
    ∀ hash : List HashWrite → UInt64, hash (hashWrites a) = hash (hashWrites b) := by
  rw [sameName_iff_hashWrites]
  constructor
  · intro h hash
    rw [h]
  · intro h
    have hown := h fun writes => if writes = hashWrites a then 1 else 0
    by_cases heq : hashWrites b = hashWrites a
    · exact heq.symm
    · rw [if_pos rfl, if_neg heq] at hown
      cases hown

/-! ## Searching by hash -/

namespace NameMap

variable {α : Type} {search : HashSearch α} {hash : List HashWrite → UInt64} {name : String}
  {m : NameMap α} {entry : String × α}

theorem sameName_of_findHashed (h : m.findHashed search hash name = some entry) :
    entry ∈ m ∧ sameName entry.1 name = true := by
  obtain ⟨hmem, hsame⟩ := search.found h
  rw [List.map_map] at hmem
  obtain ⟨other, hother, rfl⟩ := List.mem_map.mp hmem
  exact ⟨hother, sameName_comm .. ▸ hsame⟩

/-- A key that is the same name is under the hash that the name is looked for. -/
theorem isSome_findHashed_of_mem (hmem : entry ∈ m) (hsame : sameName entry.1 name = true) :
    (m.findHashed search hash name).isSome = true := by
  have hplace : (hash (hashWrites name), entry) ∈
      m.map fun entry => (hash (hashWrites entry.1), entry) :=
    List.mem_map.mpr ⟨entry, hmem, by rw [sameName_iff_hash.mp hsame hash]⟩
  cases hfound : m.findHashed search hash name with
  | some other => rfl
  | none =>
    rw [sameName_comm, search.missed hfound hplace] at hsame
    cases hsame

theorem Distinct.findHashed_eq_find? (hm : m.Distinct) :
    m.findHashed search hash name = m.find? fun entry => sameName entry.1 name := by
  cases hfound : m.findHashed search hash name with
  | some entry => exact (hm.find?_eq_some_iff.mpr (sameName_of_findHashed hfound)).symm
  | none =>
    refine (List.find?_eq_none.mpr fun entry hmem hsame => ?_).symm
    have hsome : (m.findHashed search hash name).isSome = true :=
      isSome_findHashed_of_mem hmem hsame
    rw [hfound] at hsome
    cases hsome

/-- A search by hash finds the keys that have the expansion of the name. -/
structure FindsByFold (search : HashSearch α) (hash : List HashWrite → UInt64) (name : String)
    (m : NameMap α) : Prop where
  found : ∀ entry, m.findHashed search hash name = some entry →
    entry ∈ m ∧ foldCase entry.1 = foldCase name
  isSome_iff : (m.findHashed search hash name).isSome = true ↔
    ∃ entry ∈ m, foldCase entry.1 = foldCase name
  /-- Where no two keys are the same name, each is found for the names of its expansion. -/
  eq_some_iff : m.Distinct → ∀ entry, m.findHashed search hash name = some entry ↔
    entry ∈ m ∧ foldCase entry.1 = foldCase name
  lookup_eq : m.Distinct → m.lookup name = (m.findHashed search hash name).map (·.2)

theorem findsByFold (search : HashSearch α) (hash : List HashWrite → UInt64) (name : String)
    (m : NameMap α) : m.FindsByFold search hash name where
  found entry h := by
    rw [foldCase_eq_iff]
    exact sameName_of_findHashed h
  isSome_iff := by
    simp only [foldCase_eq_iff]
    constructor
    · intro h
      obtain ⟨entry, hentry⟩ := Option.isSome_iff_exists.mp h
      exact ⟨entry, sameName_of_findHashed hentry⟩
    · rintro ⟨entry, hmem, hsame⟩
      exact isSome_findHashed_of_mem hmem hsame
  eq_some_iff hm entry := by
    rw [foldCase_eq_iff, hm.findHashed_eq_find?, hm.find?_eq_some_iff]
  lookup_eq hm := by
    rw [hm.findHashed_eq_find?, lookup_eq_find?]

end NameMap

/-! ## All notions together -/

/-- The ways of asking whether two names are the same have one answer. -/
structure SameIdentity (a b : String) : Prop where
  /-- By bytes where these agree but for the case of ASCII letters, else by the expansions. -/
  compared : sameName a b = (sameAscii a b || fold a == fold b)
  folded : sameName a b = true ↔ foldCase a = foldCase b
  written : sameName a b = true ↔ hashWrites a = hashWrites b
  hashed : sameName a b = true ↔
    ∀ hash : List HashWrite → UInt64, hash (hashWrites a) = hash (hashWrites b)

theorem sameName_coincides : (∀ a b, SameIdentity a b) ∧
    (Equivalence fun a b => sameName a b = true) ∧
    ∀ {α : Type} (search : HashSearch α) (hash : List HashWrite → UInt64) (name : String)
      (m : NameMap α), m.FindsByFold search hash name := by
  refine ⟨fun a b => ?_, ?_, fun search hash name m => NameMap.findsByFold search hash name m⟩
  · exact ⟨sameName_eq a b, foldCase_eq_iff.symm, sameName_iff_hashWrites, sameName_iff_hash⟩
  · exact ⟨sameName_refl, fun h => sameName_comm .. ▸ h, sameName_trans⟩

/-- Names of different lengths that are the same, and a hash that all names share. -/
theorem sameName_coincides_dotted :
    sameName "\u0130D" "i\u0307d" = true ∧ sameAscii "\u0130D" "i\u0307d" = false ∧
    hashWrites "\u0130D" = hashWrites "i\u0307d" ∧
    NameMap.findHashed .inOrder (fun _ => 0) "i\u0307d" [("Id", 1), ("\u0130D", 2)] =
      some ("\u0130D", 2) ∧
    NameMap.findHashed .inOrder (fun writes => writes.length.toUInt64) "\u0131d"
      [("Id", 1), ("\u0130D", 2)] = none := by
  obtain ⟨hidentity, -, hfinds⟩ := sameName_coincides
  have hfold : foldCase "\u0130D" = foldCase "i\u0307d" := by decide +kernel
  have hsame := (hidentity "\u0130D" "i\u0307d").folded.mpr hfold
  have hdistinct : NameMap.Distinct [("Id", 1), ("\u0130D", 2)] :=
    List.pairwise_pair.mpr (by decide +kernel)
  refine ⟨hsame, by decide +kernel, (hidentity _ _).written.mp hsame, ?_, by decide +kernel⟩
  exact ((hfinds _ _ _ _).eq_some_iff hdistinct _).mpr ⟨by decide, hfold⟩

end DynamicMembers
