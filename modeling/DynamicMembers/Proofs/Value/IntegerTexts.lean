import DynamicMembers.Proofs.Value.Integers
import DynamicMembers.Proofs.Text.BlankNames
import DynamicMembers.Value.Text

/-! # Integers as texts

The text of an integer has its digits behind a minus sign or none, so it is read as that integer,
and blanks around it do not matter. There is no need to go by way of a floating-point number, which
would not give back all of the digits (`Value.int_of_text`).
-/
namespace DynamicMembers

/-! ## Written integers are read -/

theorem decimalValue_toDigits (n : ℕ) : decimalValue (Nat.toDigits 10 n) = n := by
  have hread : digitsValue (Nat.toDigits 10 n) = Nat.ofDigitChars 10 (Nat.toDigits 10 n) 0 := by
    simp only [digitsValue, Nat.ofDigitChars_eq_foldl, Nat.mul_comm 10]
  rw [← digitsValue_eq, hread, Nat.ofDigitChars_ten_toDigits]

theorem spells_toString (i : ℤ) : Spells (toString i).toList i := by
  have hdigits (n : ℕ) : ∀ c ∈ Nat.toDigits 10 n, c.isDigit = true :=
    fun c hc => Nat.isDigit_of_mem_toDigits (by decide) (by decide) hc
  cases i with
  | ofNat n =>
    have hplain := Spells.plain Nat.toDigits_ne_nil (hdigits n)
    rw [decimalValue_toDigits] at hplain
    rwa [Int.toString_eq_repr, Int.repr, Nat.toList_repr]
  | negSucc n =>
    have hminus := Spells.minus Nat.toDigits_ne_nil (hdigits (n + 1))
    rw [decimalValue_toDigits] at hminus
    rwa [Int.toString_eq_repr, Int.repr, String.toList_append, Nat.toList_repr]

theorem fitInt64_toInt (i : Int64) : fitInt64 i.toInt = some i := by
  have hlow := i.le_toInt
  have hhigh := i.toInt_lt
  rw [fitInt64, if_pos (by omega), Int64.ofInt_toInt]

/-! ## Blanks around a text -/

theorem not_isBlank_of_isDigit {c : Char} (h : c.isDigit = true) : isBlank c = false := by
  rw [Char.isDigit, Bool.and_eq_true, decide_eq_true_eq, decide_eq_true_eq] at h
  have hlow : 48 ≤ c.toNat := UInt32.le_iff_toNat_le.mp h.1
  have hhigh : c.toNat ≤ 57 := UInt32.le_iff_toNat_le.mp h.2
  rw [Bool.eq_false_iff, ne_eq, isBlank_iff_mem]
  simp only [blankCodes, List.mem_cons, List.not_mem_nil, or_false]
  omega

theorem Spells.not_isBlank {cs : List Char} {i : ℤ} (h : Spells cs i) :
    ∀ c ∈ cs, isBlank c = false := by
  cases h with
  | plain _ h => exact fun c hc => not_isBlank_of_isDigit (h c hc)
  | plus _ h | minus _ h =>
    exact List.forall_mem_cons.mpr ⟨by decide, fun c hc => not_isBlank_of_isDigit (h c hc)⟩

theorem Spells.ne_nil {cs : List Char} {i : ℤ} (h : Spells cs i) : cs ≠ [] := by
  cases h with
  | plain hne => exact hne
  | plus | minus => exact List.cons_ne_nil _ _

section

variable {before cs after : List Char}

theorem dropWhile_isBlank_append (hbefore : ∀ c ∈ before, isBlank c = true) (hne : cs ≠ [])
    (h : ∀ c ∈ cs, isBlank c = false) (after : List Char) :
    (before ++ (cs ++ after)).dropWhile isBlank = cs ++ after := by
  obtain ⟨c, rest, rfl⟩ := List.exists_cons_of_ne_nil hne
  have hc : ¬ isBlank c = true := Bool.eq_false_iff.mp (h c List.mem_cons_self)
  rw [List.dropWhile_append_of_pos hbefore, List.cons_append, List.dropWhile_cons_of_neg hc]

theorem trimBlank_append (hbefore : ∀ c ∈ before, isBlank c = true)
    (hafter : ∀ c ∈ after, isBlank c = true) (hne : cs ≠ []) (h : ∀ c ∈ cs, isBlank c = false) :
    trimBlank (before ++ (cs ++ after)) = cs := by
  have hback : (cs ++ after).reverse.dropWhile isBlank = cs.reverse := by
    have hreversed : (after.reverse ++ (cs.reverse ++ [])).dropWhile isBlank = cs.reverse ++ [] :=
      dropWhile_isBlank_append (by simpa using hafter) (by simpa using hne) (by simpa using h) []
    rwa [List.append_nil, ← List.reverse_append] at hreversed
  rw [trimBlank, dropWhile_isBlank_append hbefore hne h, hback, List.reverse_reverse]

end

/-! ## There and back -/

namespace Value

theorem convertTo?_int_of_some {write : Value → Option String} {v : Value} {n : Int64}
    (hv : v.type ≠ .int) (h : v.toInt64? = some n) :
    v.convertTo? write .int = some (.ok (.int n)) := by
  have hunwritten : v.isWrittenFor .int = false := by simp [isWrittenFor, changeType?, h]
  simp [convertTo?, hunwritten, convertTo_int_of_some hv h]

/-- An integer that is written and read again, whatever blanks come before and behind. The text is
read as an integer at once, and not as a floating-point number. -/
theorem int_of_text (refer : Value → Option String) (i : Int64) {before after : String}
    (hbefore : isBlankText before = true) (hafter : isBlankText after = true) :
    ∃ text, (int i).convertTo? (textWith refer) .string = some (.ok (.string text)) ∧
      (readInt (trimBlank (before ++ (text ++ after)).toList)).bind fitInt64 = some i ∧
      (string (before ++ (text ++ after))).convertTo? (textWith refer) .int =
        some (.ok (.int i)) := by
  have hspells := spells_toString i.toInt
  have htrim : trimBlank (before ++ (toString i.toInt ++ after)).toList =
      (toString i.toInt).toList := by
    rw [String.toList_append, String.toList_append]
    exact trimBlank_append (List.all_eq_true.mp hbefore) (List.all_eq_true.mp hafter)
      hspells.ne_nil hspells.not_isBlank
  have hread : (readInt (trimBlank (before ++ (toString i.toInt ++ after)).toList)).bind
      fitInt64 = some i := by
    rw [htrim, hspells.readInt, Option.bind_some, fitInt64_toInt]
  have hnumber : (string (before ++ (toString i.toInt ++ after))).toInt64? = some i := by
    rw [toInt64?, readInt64, hread, Option.orElse_some]
  refine ⟨toString i.toInt, ?_, hread, convertTo?_int_of_some (by simp [type]) hnumber⟩
  simp [convertTo?, textWith, convertTo, changeType?, type]

/-- The least integer between blanks of three kinds. -/
theorem minValue_of_text : ∃ text,
    (int Int64.minValue).convertTo? (textWith fun _ => none) .string =
        some (.ok (.string text)) ∧
      (readInt (trimBlank ("\t " ++ (text ++ "\u3000")).toList)).bind fitInt64 =
        some Int64.minValue ∧
      (string ("\t " ++ (text ++ "\u3000"))).convertTo? (textWith fun _ => none) .int =
        some (.ok (.int Int64.minValue)) :=
  int_of_text (fun _ => none) Int64.minValue (by decide) (by decide)

end Value

end DynamicMembers
