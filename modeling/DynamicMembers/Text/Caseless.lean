import DynamicMembers.Text.Ascii
import DynamicMembers.Text.Lowercase
/-!
Names without regard to case. Two names are the same when their lower-case expansions are; the
spelling of a name is kept for display. The main statement, `sameName_iff`, says that the quick
comparisons never decide differently from the expansions.
-/

namespace DynamicMembers

/-- The lower-case expansion of a text, character by character. -/
def fold (s : String) : List Char :=
  s.toList.flatMap lowercase

def foldCase (s : String) : String :=
  String.ofList (fold s)

/-- Have two texts the same expansion? They are expanded no further than they agree, as long as
every character has an expansion of one character. -/
def sameExpansion : List Char → List Char → Bool
  | a :: as, b :: bs =>
    if a == b then sameExpansion as bs
    else match lowercase a, lowercase b with
      | [x], [y] => x == y && sameExpansion as bs
      | _, _ => (a :: as).flatMap lowercase == (b :: bs).flatMap lowercase
  | as, bs => as.flatMap lowercase == bs.flatMap lowercase

/-- Equal without regard to case. Two ASCII texts are compared in place. -/
def sameName (a b : String) : Bool :=
  if isAscii a && isAscii b then sameAscii a b else sameExpansion a.toList b.toList

/-! ## The quick comparisons agree with the expansions -/

theorem lowercase_of_ascii {c : Char} (h : c.toNat < 128) : lowercase c = [c.toLower] := by
  simp [lowercase, h]

theorem flatMap_lowercase_of_ascii {cs : List Char} (h : ∀ c ∈ cs, c.toNat < 128) :
    cs.flatMap lowercase = cs.map Char.toLower := by
  induction cs with
  | nil => rfl
  | cons c cs ih =>
    rw [List.flatMap_cons, lowercase_of_ascii (h c (by simp)), ih fun d hd => h d (by simp [hd])]
    rfl

theorem sameExpansion_iff {as bs : List Char} :
    sameExpansion as bs = true ↔ as.flatMap lowercase = bs.flatMap lowercase := by
  fun_induction sameExpansion as bs with
  | case1 a as b bs hab ih => simp [beq_iff_eq.mp hab, ih]
  | case2 a as b bs _ x y hx hy ih => simp [hx, hy, ih]
  | case3 => exact beq_iff_eq
  | case4 => exact beq_iff_eq

theorem sameName_iff {a b : String} : sameName a b = true ↔ fold a = fold b := by
  unfold sameName
  split
  · rename_i h
    obtain ⟨ha, hb⟩ := Bool.and_eq_true_iff.mp h
    rw [sameAscii_iff, fold, fold, flatMap_lowercase_of_ascii (toNat_lt_of_isAscii ha),
      flatMap_lowercase_of_ascii (toNat_lt_of_isAscii hb)]
  · exact sameExpansion_iff

@[simp] theorem sameName_refl (a : String) : sameName a a = true :=
  sameName_iff.mpr rfl

theorem sameName_comm (a b : String) : sameName a b = sameName b a := by
  rw [Bool.eq_iff_iff, sameName_iff, sameName_iff, eq_comm]

theorem sameName_trans {a b c : String} (hab : sameName a b = true) (hbc : sameName b c = true) :
    sameName a c = true :=
  sameName_iff.mpr ((sameName_iff.mp hab).trans (sameName_iff.mp hbc))

theorem sameName_congr_left {a b : String} (h : sameName a b = true) (c : String) :
    sameName a c = sameName b c := by
  rw [Bool.eq_iff_iff, sameName_iff, sameName_iff, sameName_iff.mp h]

theorem sameName_congr_right {a b : String} (h : sameName a b = true) (c : String) :
    sameName c a = sameName c b := by
  rw [Bool.eq_iff_iff, sameName_iff, sameName_iff, sameName_iff.mp h]

theorem foldCase_eq_iff {a b : String} : foldCase a = foldCase b ↔ sameName a b = true := by
  rw [sameName_iff]
  exact ⟨fun h => by simpa [foldCase] using congrArg String.toList h,
    fun h => by rw [foldCase, foldCase, h]⟩

/-- A test of names that does not distinguish the spellings of one name. -/
def Caseless (p : String → Bool) : Prop :=
  ∀ a b, sameName a b = true → p a = p b

theorem caseless_sameName (name : String) : Caseless (sameName · name) :=
  fun _ _ h => sameName_congr_left h name

/-! ## Of entries of one name the first -/

/-- The entries whose names are neither met before nor among the claimed expansions. -/
def firstByName {α : Type} (nameOf : α → String) (claimed : List String) : List α → List α
  | [] => []
  | a :: rest =>
    let key := foldCase (nameOf a)
    if claimed.contains key then firstByName nameOf claimed rest
    else a :: firstByName nameOf (key :: claimed) rest

section

variable {α : Type} {nameOf : α → String} {claimed : List String} {as : List α}

theorem mem_of_mem_firstByName {a : α} (h : a ∈ firstByName nameOf claimed as) : a ∈ as := by
  fun_induction firstByName nameOf claimed as with
  | case1 => cases h
  | case2 claimed b rest key _ ih => exact List.mem_cons_of_mem b (ih h)
  | case3 claimed b rest key _ ih =>
    rcases List.mem_cons.mp h with rfl | h
    · exact List.mem_cons_self
    · exact List.mem_cons_of_mem b (ih h)

theorem foldCase_notMem_of_mem_firstByName {a : α} (h : a ∈ firstByName nameOf claimed as) :
    foldCase (nameOf a) ∉ claimed := by
  fun_induction firstByName nameOf claimed as with
  | case1 => simp at h
  | case2 claimed b rest key _ ih => exact ih h
  | case3 claimed b rest key hkey ih =>
    rcases List.mem_cons.mp h with rfl | h
    · simpa using hkey
    · exact fun hmem => ih h (List.mem_cons_of_mem _ hmem)

theorem pairwise_firstByName :
    (firstByName nameOf claimed as).Pairwise fun a b =>
      sameName (nameOf a) (nameOf b) = false := by
  fun_induction firstByName nameOf claimed as with
  | case1 => exact List.Pairwise.nil
  | case2 claimed b rest key _ ih => exact ih
  | case3 claimed b rest key _ ih =>
    refine List.pairwise_cons.mpr ⟨fun a ha => ?_, ih⟩
    rw [Bool.eq_false_iff]
    intro hsame
    refine foldCase_notMem_of_mem_firstByName ha ?_
    rw [← foldCase_eq_iff.mpr hsame]
    exact List.mem_cons_self

theorem find?_of_getElem? {i : Nat} {a : α} {name : String}
    (h : as.Pairwise fun a b => sameName (nameOf a) (nameOf b) = false) (ha : as[i]? = some a)
    (hname : sameName (nameOf a) name = true) :
    as.find? (fun b => sameName (nameOf b) name) = some a := by
  obtain ⟨hi, rfl⟩ := List.getElem?_eq_some_iff.mp ha
  refine List.find?_eq_some_iff_getElem.mpr ⟨hname, i, hi, rfl, fun j hj => ?_⟩
  have hdistinct := List.pairwise_iff_getElem.mp h j i (Nat.lt_trans hj hi) hi hj
  rw [← sameName_congr_right hname, hdistinct, Bool.not_false]

theorem firstByName_congr {other : List String} (h : ∀ key, key ∈ claimed ↔ key ∈ other)
    (as : List α) : firstByName nameOf claimed as = firstByName nameOf other as := by
  induction as generalizing claimed other with
  | nil => rfl
  | cons a as ih =>
    have hnext : ∀ key, key ∈ foldCase (nameOf a) :: claimed ↔
        key ∈ foldCase (nameOf a) :: other := by
      simp [h]
    simp only [firstByName, List.contains_iff_mem, h, ih h, ih hnext]

/-- Entries with new and different names come first, and claim their names. -/
theorem firstByName_append (hnew : ∀ a ∈ as, foldCase (nameOf a) ∉ claimed)
    (hdistinct : as.Pairwise fun a b => sameName (nameOf a) (nameOf b) = false) (bs : List α) :
    firstByName nameOf claimed (as ++ bs) =
      as ++ firstByName nameOf (as.map (foldCase ∘ nameOf) ++ claimed) bs := by
  induction as generalizing claimed with
  | nil => rfl
  | cons a as ih =>
    obtain ⟨hfirst, hrest⟩ := List.pairwise_cons.mp hdistinct
    have hkey : foldCase (nameOf a) ∉ claimed := hnew a List.mem_cons_self
    have hnew' : ∀ b ∈ as, foldCase (nameOf b) ∉ foldCase (nameOf a) :: claimed := by
      intro b hb hmem
      rcases List.mem_cons.mp hmem with heq | hmem
      · rw [foldCase_eq_iff, sameName_comm, hfirst b hb] at heq
        cases heq
      · exact hnew b (List.mem_cons_of_mem a hb) hmem
    have hkeys : ∀ key, key ∈ as.map (foldCase ∘ nameOf) ++ foldCase (nameOf a) :: claimed ↔
        key ∈ (a :: as).map (foldCase ∘ nameOf) ++ claimed := by
      simp [or_left_comm]
    rw [← firstByName_congr hkeys, List.cons_append, List.cons_append, ← ih hnew' hrest]
    simp [firstByName, hkey]

/-- Entries of the names that come first: those of the first list, and then those of the second that
are under other names. -/
theorem firstByName_append_eq (as bs : List α) : firstByName nameOf claimed (as ++ bs) =
      firstByName nameOf claimed as ++
        firstByName nameOf (as.map (foldCase ∘ nameOf) ++ claimed) bs := by
  induction as generalizing claimed with
  | nil => rfl
  | cons a as ih =>
    by_cases hclaimed : foldCase (nameOf a) ∈ claimed
    · have hkeys (key : String) : key ∈ as.map (foldCase ∘ nameOf) ++ claimed ↔
          key ∈ (a :: as).map (foldCase ∘ nameOf) ++ claimed := by
        simp only [List.map_cons, List.cons_append, List.mem_cons, Function.comp_apply]
        refine ⟨.inr, ?_⟩
        rintro (rfl | h)
        · exact List.mem_append_right _ hclaimed
        · exact h
      simp [firstByName, hclaimed, ih, firstByName_congr hkeys]
    · have hkeys (key : String) :
          key ∈ as.map (foldCase ∘ nameOf) ++ foldCase (nameOf a) :: claimed ↔
            key ∈ (a :: as).map (foldCase ∘ nameOf) ++ claimed := by
        simp [or_left_comm]
      simp [firstByName, hclaimed, ih, firstByName_congr hkeys]

/-- With what is claimed, the first entries have all the names that there are. -/
theorem mem_keys_firstByName {key : String} :
    (key ∈ (firstByName nameOf claimed as).map (foldCase ∘ nameOf) ∨ key ∈ claimed) ↔
      key ∈ as.map (foldCase ∘ nameOf) ∨ key ∈ claimed := by
  fun_induction firstByName nameOf claimed as with
  | case1 => rfl
  | case2 claimed a rest first hclaimed ih =>
    have hfirst : first ∈ claimed := List.contains_iff_mem.mp hclaimed
    rw [ih, List.map_cons, List.mem_cons]
    refine ⟨Or.imp_left .inr, ?_⟩
    rintro ((rfl | h) | h)
    · exact .inr hfirst
    · exact .inl h
    · exact .inr h
  | case3 claimed a rest first _ ih =>
    have hfirst : first = foldCase (nameOf a) := rfl
    simp only [List.map_cons, List.mem_cons, Function.comp_apply, or_assoc, ← hfirst] at ih ⊢
    rw [or_left_comm, ih, or_left_comm]

theorem firstByName_map {β : Type} (f : β → α) (bs : List β) :
    firstByName nameOf claimed (bs.map f) = (firstByName (nameOf ∘ f) claimed bs).map f := by
  induction bs generalizing claimed with
  | nil => rfl
  | cons b bs ih =>
    simp only [List.map_cons, firstByName, Function.comp_apply, ih]
    split <;> rfl

/-- What is claimed beforehand is left out, and nothing else. -/
theorem firstByName_claimed_append {other : List String} (as : List α) :
    firstByName nameOf (claimed ++ other) as =
      (firstByName nameOf other as).filter fun a => !claimed.contains (foldCase (nameOf a)) := by
  induction as generalizing other with
  | nil => rfl
  | cons a as ih =>
    have hkeys : ∀ key, key ∈ foldCase (nameOf a) :: (claimed ++ other) ↔
        key ∈ claimed ++ foldCase (nameOf a) :: other := by
      simp [or_left_comm]
    by_cases hother : foldCase (nameOf a) ∈ other
    · simp [firstByName, hother, ih]
    · by_cases hclaimed : foldCase (nameOf a) ∈ claimed
      · have hsame : ∀ key, key ∈ claimed ++ other ↔
            key ∈ claimed ++ foldCase (nameOf a) :: other := by
          intro key
          rw [← hkeys key, List.mem_cons]
          refine ⟨.inr, ?_⟩
          rintro (rfl | h)
          · exact List.mem_append_left _ hclaimed
          · exact h
        simp [firstByName, hother, hclaimed, firstByName_congr hsame, ih]
      · simp [firstByName, hother, hclaimed, firstByName_congr hkeys, ih]

/-- A search that does not distinguish spellings passes nothing over in the entries that are
left out, unless it is for a name that is claimed. -/
theorem Caseless.find?_firstByName {p : String → Bool} (hp : Caseless p)
    (h : ∀ a ∈ as, p (nameOf a) = true → foldCase (nameOf a) ∉ claimed) :
    (firstByName nameOf claimed as).find? (fun a => p (nameOf a)) =
      as.find? fun a => p (nameOf a) := by
  fun_induction firstByName nameOf claimed as with
  | case1 => rfl
  | case2 claimed b rest key hkey ih =>
    have hother : p (nameOf b) = false := by
      rw [Bool.eq_false_iff]
      intro hb
      exact h b List.mem_cons_self hb (by simpa using hkey)
    simp [ih fun a ha => h a (List.mem_cons_of_mem b ha), hother]
  | case3 claimed b rest key _ ih =>
    cases hb : p (nameOf b) with
    | true => simp [hb]
    | false =>
      have hrest : ∀ a ∈ rest, p (nameOf a) = true → foldCase (nameOf a) ∉ key :: claimed := by
        intro a ha hpa hmem
        rcases List.mem_cons.mp hmem with heq | hmem
        · rw [hp _ _ (foldCase_eq_iff.mp heq), hb] at hpa
          cases hpa
        · exact h a (List.mem_cons_of_mem b ha) hpa hmem
      simp [hb, ih hrest]

/-- Entries that are left out are not the first of their name. -/
theorem find?_firstByName {name : String} (h : foldCase name ∉ claimed) :
    (firstByName nameOf claimed as).find? (fun a => sameName (nameOf a) name) =
      as.find? fun a => sameName (nameOf a) name := by
  refine (caseless_sameName name).find?_firstByName fun a _ hsame => ?_
  rwa [foldCase_eq_iff.mpr hsame]

end

end DynamicMembers
