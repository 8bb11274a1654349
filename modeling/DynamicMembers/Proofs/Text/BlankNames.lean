import DynamicMembers.Text.Blank
import DynamicMembers.Text.Caseless

/-! # Blank names without regard to case

No blank character has another lower-case form, and none is a part of one. So whether
a name is blank does not depend on its spelling (`isBlankText_congr`): where one row of
an adapter is no member because its name is blank, all rows of that name are none.
-/
namespace DynamicMembers

def blankCodes : List Nat :=
  [9, 10, 11, 12, 13, 0x20, 0x85, 0xA0, 0x1680, 0x2000, 0x2001, 0x2002, 0x2003, 0x2004, 0x2005,
    0x2006, 0x2007, 0x2008, 0x2009, 0x200A, 0x2028, 0x2029, 0x202F, 0x205F, 0x3000]

theorem isBlank_iff_mem {c : Char} : isBlank c = true ↔ c.toNat ∈ blankCodes := by
  simp only [isBlank, Bool.or_eq_true, Bool.and_eq_true, decide_eq_true_eq, beq_iff_eq,
    blankCodes, List.mem_cons, List.not_mem_nil, or_false]
  omega

theorem isBlank_ofNat {n : Nat} (h : n ∉ blankCodes) : isBlank (Char.ofNat n) = false := by
  rw [Bool.eq_false_iff, ne_eq, isBlank_iff_mem]
  by_cases hn : n.isValidChar
  · rwa [Char.ofNat, dif_pos hn]
  · rw [Char.ofNat, dif_neg hn]
    decide

/-- A run of upper-case characters has no blank character, and neither have their lower-case
forms. -/
theorem CaseRun.notMem_blankCodes {r : CaseRun} (hr : r ∈ caseRuns) {code : Nat}
    (h : r.holds code = true) : code ∉ blankCodes ∧ (code + r.shift).toNat ∉ blankCodes := by
  have hfree : ∀ r ∈ caseRuns, ∀ blank ∈ blankCodes, 0 < blank ∧
      (blank < r.first ∨ r.last < blank) ∧
      (blank < r.first + r.shift ∨ r.last + r.shift < blank) := by
    decide +kernel
  simp only [CaseRun.holds, Bool.and_eq_true, decide_eq_true_eq] at h
  constructor
  · intro hmem
    obtain ⟨-, hrun, -⟩ := hfree r hr _ hmem
    omega
  · intro hmem
    obtain ⟨hpos, -, hshifted⟩ := hfree r hr _ hmem
    omega

theorem isBlank_toLower_ofNat :
    ∀ n < 128, isBlank (Char.ofNat n).toLower = isBlank (Char.ofNat n) := by
  decide

theorem all_isBlank_lowercase (c : Char) : (lowercase c).all isBlank = isBlank c := by
  unfold lowercase
  split
  · rename_i hascii
    have hlower := isBlank_toLower_ofNat c.toNat hascii
    rw [Char.ofNat_toNat] at hlower
    simp [hlower]
  · split
    · rename_i hdotted
      rw [beq_iff_eq] at hdotted
      have : c = Char.ofNat 0x130 := by rw [← hdotted, Char.ofNat_toNat]
      subst this
      decide
    · split
      · rename_i r hfind
        split
        · rename_i hholds
          obtain ⟨hupper, hlower⟩ :=
            CaseRun.notMem_blankCodes (List.mem_of_find?_eq_some hfind) hholds
          have hc : isBlank c = false := by rwa [Bool.eq_false_iff, ne_eq, isBlank_iff_mem]
          simp [isBlank_ofNat hlower, hc]
        · simp
      · simp

theorem isBlankText_eq (s : String) : isBlankText s = (fold s).all isBlank := by
  simp [isBlankText, fold, all_isBlank_lowercase]

theorem isBlankText_congr {a b : String} (h : sameName a b = true) :
    isBlankText a = isBlankText b := by
  rw [isBlankText_eq, isBlankText_eq, sameName_iff.mp h]

end DynamicMembers
