import DynamicMembers.Proofs.Text.EscapedSets

/-! # Question marks

A question mark stands for one character of the lowered name. Every character has one character as
its lower-case form, but for `U+0130`, which has two; so each of these takes a second question mark
(`Wildcard.questionMarks_accepts_iff`).
-/
namespace DynamicMembers

theorem length_lowercase (c : Char) : (lowercase c).length = if c = '\u0130' then 2 else 1 := by
  split
  next hdotted =>
    subst hdotted
    decide
  next hother =>
    have hcode : ¬ (c.toNat == 0x130) = true := by
      intro h
      exact hother (Char.toNat_inj.mp (beq_iff_eq.mp h))
    rw [lowercase, if_neg hcode]
    split
    · rfl
    · split
      · split <;> rfl
      · rfl

theorem length_flatMap_lowercase (cs : List Char) :
    (cs.flatMap lowercase).length = cs.length + cs.count '\u0130' := by
  induction cs with
  | nil => rfl
  | cons c cs ih =>
    rw [List.flatMap_cons, List.length_append, ih, length_lowercase, List.length_cons,
      List.count_cons]
    by_cases hdotted : c = '\u0130' <;> simp only [hdotted, beq_iff_eq, if_true, if_false] <;> omega

namespace Wildcard

def questionMarks (n : ℕ) : String :=
  String.ofList (List.replicate n '?')

theorem reads_questionMarks (n : ℕ) :
    Reads (questionMarks n).toList (List.replicate n .anyOne) := by
  rw [questionMarks, String.toList_ofList]
  induction n with
  | zero => exact .nil
  | succ n ih => exact .anyOne ih

theorem splits_anyOnes_iff {n : ℕ} {text : List Char} :
    Splits (List.replicate n .anyOne) text ↔ text.length = n := by
  induction n generalizing text with
  | zero => rw [List.replicate_zero, splits_nil_iff, List.length_eq_zero_iff]
  | succ n ih =>
    rw [List.replicate_succ, splits_cons_iff]
    constructor
    · rintro ⟨_, rest, rfl, ⟨c⟩, hrest⟩
      rw [List.length_append, ih.mp hrest, List.length_singleton, Nat.add_comm]
    · intro h
      obtain ⟨c, rest, rfl⟩ := List.exists_cons_of_length_eq_add_one h
      exact ⟨[c], rest, rfl, .anyOne c, ih.mpr (Nat.succ.inj h)⟩

theorem finds_of_hasWildcards {pattern : String} {parts : List Part}
    (h : Reads pattern.toList parts) (hstar : pattern ≠ "*")
    (hwildcards : hasWildcards pattern.toList = true) : Finds pattern parts := by
  obtain ⟨tokens, htokens, hmeans⟩ := h.translates false
  refine ⟨⟨pattern, .glob tokens⟩, ?_, fun name => ?_⟩
  · simp [parse, hstar, hwildcards, htokens.parse]
  · have haccepts : (⟨pattern, .glob tokens⟩ : Wildcard).accepts name =
        Glob.accepts tokens (fold name) := rfl
    rw [haccepts, Glob.accepts_eq_describes]
    exact hmeans (fold name)

theorem questionMarks_ne_star (n : ℕ) : questionMarks n ≠ "*" := by
  intro h
  have hlist := congrArg String.toList h
  rw [questionMarks, String.toList_ofList] at hlist
  have hmem : '*' ∈ List.replicate n '?' := by
    rw [hlist]
    exact List.mem_singleton_self '*'
  exact absurd (List.eq_of_mem_replicate hmem) (by decide)

/-- A name takes a question mark for each of its characters, and another one for each `U+0130`. -/
theorem questionMarks_accepts_iff {n : ℕ} (hn : 1 ≤ n) :
    ∃ w, parse (questionMarks n) = .ok w ∧ ∀ name : String,
      w.accepts name = true ↔ name.length + name.toList.count '\u0130' = n := by
  have hwildcards : hasWildcards (questionMarks n).toList = true := by
    obtain ⟨k, rfl⟩ := Nat.exists_eq_add_of_le' hn
    rw [questionMarks, String.toList_ofList, List.replicate_succ]
    rfl
  obtain ⟨w, hw, hfinds⟩ :=
    finds_of_hasWildcards (reads_questionMarks n) (questionMarks_ne_star n) hwildcards
  refine ⟨w, hw, fun name => ?_⟩
  rw [hfinds, splits_anyOnes_iff, fold, length_flatMap_lowercase, String.length_toList]

/-- Two question marks find a name of two characters, and the name of one character that becomes
two. -/
theorem questionMarks_accepts_two : ∃ w, parse (questionMarks 2) = .ok w ∧
    w.accepts "Ab" = true ∧ w.accepts "\u0130" = true ∧ w.accepts "a" = false := by
  obtain ⟨w, hw, haccepts⟩ := questionMarks_accepts_iff (by decide : 1 ≤ 2)
  refine ⟨w, hw, (haccepts _).mpr (by decide), (haccepts _).mpr (by decide), ?_⟩
  rw [Bool.eq_false_iff, ne_eq, haccepts]
  decide

/-- One question mark does not find that name. -/
theorem questionMarks_not_accepts_length : ¬ ∀ n, 1 ≤ n → ∃ w, parse (questionMarks n) = .ok w ∧
    ∀ name : String, w.accepts name = true ↔ name.length = n := by
  intro h
  obtain ⟨w, hw, haccepts⟩ := h 1 (Nat.le_refl 1)
  have hrun : (parse (questionMarks 1)).toOption.map (·.accepts "\u0130") = some false := by
    decide +kernel
  rw [hw] at hrun
  have hrefused : w.accepts "\u0130" = false := Option.some.inj hrun
  rw [(haccepts "\u0130").mpr (by decide)] at hrefused
  cases hrefused

end Wildcard

end DynamicMembers
