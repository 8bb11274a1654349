import DynamicMembers.NameMap
/-!
Names in tables that put their entries away by hash. A hash is made of what is written into it,
and a name writes the characters of its expansion, so names that are the same are looked for under
one hash. How a table finds its places is left open: a `HashSearch` finds entries that pass a test,
and passes none of them over that is put away under the hash it is asked for.
-/

namespace DynamicMembers

/-- One thing that is written into a hash. -/
inductive HashWrite
  | word (w : UInt32)
  | byte (b : UInt8)
  deriving Repr, DecidableEq

/-- What a name writes into a hash: the characters of its expansion, and a byte that ends it. -/
def hashWrites (name : String) : List HashWrite :=
  (fold name).map (fun c => .word c.val) ++ [.byte 0xff]

theorem hashWrites_eq_iff {a b : String} : hashWrites a = hashWrites b ↔ fold a = fold b := by
  have hword : Function.Injective fun c : Char => HashWrite.word c.val := fun c d h =>
    Char.ext (HashWrite.word.inj h)
  rw [hashWrites, hashWrites, List.append_cancel_right_eq, List.map_inj_right hword]

/-- A search among entries that are put away by hash, with a test for the key that is looked for. -/
structure HashSearch (α : Type) where
  find : UInt64 → (String → Bool) → List (UInt64 × String × α) → Option (String × α)
  /-- What is found is an entry that passes the test. -/
  found : ∀ {hash test entries entry}, find hash test entries = some entry →
    entry ∈ entries.map (·.2) ∧ test entry.1 = true
  /-- No entry that is put away under the hash is passed over if it passes the test. -/
  missed : ∀ {hash test entries entry}, find hash test entries = none →
    (hash, entry) ∈ entries → test entry.1 = false

/-- The search that goes through all entries and looks only at those under the hash. -/
def HashSearch.inOrder {α : Type} : HashSearch α where
  find hash test entries := (entries.find? fun e => e.1 == hash && test e.2.1).map (·.2)
  found h := by
    obtain ⟨e, he, rfl⟩ := Option.map_eq_some_iff.mp h
    have hpass := List.find?_some he
    simp only [Bool.and_eq_true] at hpass
    exact ⟨List.mem_map_of_mem (List.mem_of_find?_eq_some he), hpass.2⟩
  missed h hmem := by
    have hnone := List.find?_eq_none.mp (Option.map_eq_none_iff.mp h) _ hmem
    simpa using hnone

namespace NameMap

variable {α : Type}

/-- The entry that is found for a name if every entry is put away under the hash of its key. -/
def findHashed (search : HashSearch α) (hash : List HashWrite → UInt64) (name : String)
    (m : NameMap α) : Option (String × α) :=
  search.find (hash (hashWrites name)) (sameName name)
    (m.map fun entry => (hash (hashWrites entry.1), entry))

end NameMap

end DynamicMembers
