import DynamicMembers.Proofs.Text.PatternCase
import Mathlib.Data.List.Chain
import Mathlib.Data.List.Forall2

/-! # What a pattern means

A pattern is read as a sequence of parts (`Wildcard.Reads`): characters that stand for
themselves, wildcards, and sets. It finds a name if the lowered name can be cut into
pieces, one for each part and in their order, such that each part describes its piece
(`Wildcard.Splits`). The glob that a pattern is turned into has no other meaning, whichever
way the pattern is read (`Wildcard.accepts_iff_splits`): by induction on the parts, with
the text of a name left open, so that a run can take any beginning of it.
-/
namespace DynamicMembers

namespace Wildcard

/-! ## Parts -/

inductive Part
  /-- A character that stands for itself, with or without a backtick in front. -/
  | plain (c : Char)
  | anyOne
  | anyRun
  /-- The characters of a set, or those outside it. -/
  | set (negated : Bool) (body : List Char)
  deriving Repr, DecidableEq

/-- What stands between the brackets of a set: no backtick, no two stars in a row, and no bracket
that closes the set but as its first character. -/
structure IsBody (first : Char) (more : List Char) : Prop where
  unclosed : ']' ∉ more
  unescaped : '\x60' ∉ first :: more
  starsApart : (first :: more).IsChain fun a b => ¬(a = '*' ∧ b = '*')

inductive Reads : List Char → List Part → Prop
  | nil : Reads [] []
  /-- A backtick at the end stands for nothing. -/
  | lone : Reads ['\x60'] []
  | escaped {rest : List Char} {parts : List Part} (c : Char) (h : Reads rest parts) :
      Reads ('\x60' :: c :: rest) (.plain c :: parts)
  | ordinary {c : Char} {rest : List Char} {parts : List Part}
      (hc : c ∉ ['\x60', '*', '?', '[']) (h : Reads rest parts) :
      Reads (c :: rest) (.plain c :: parts)
  | anyOne {rest : List Char} {parts : List Part} (h : Reads rest parts) :
      Reads ('?' :: rest) (.anyOne :: parts)
  | anyRun {rest : List Char} {parts : List Part} (h : Reads rest parts) :
      Reads ('*' :: rest) (.anyRun :: parts)
  | within {first : Char} {more rest : List Char} {parts : List Part} (hfirst : first ≠ '!')
      (hbody : IsBody first more) (h : Reads rest parts) :
      Reads ('[' :: first :: more ++ ']' :: rest) (.set false (first :: more) :: parts)
  | outside {first : Char} {more rest : List Char} {parts : List Part}
      (hbody : IsBody first more) (h : Reads rest parts) :
      Reads ('[' :: '!' :: first :: more ++ ']' :: rest) (.set true (first :: more) :: parts)

/-- The character is among those between the brackets of a set: two characters with a hyphen
between them stand for all from the one to the other, as often as three characters remain. -/
inductive Has (c : Char) : List Char → Prop
  | inRange {low high : Char} {rest : List Char} (hlow : low ≤ c) (hhigh : c ≤ high) :
      Has c (low :: '-' :: high :: rest)
  | behindRange {low high : Char} {rest : List Char} (h : Has c rest) :
      Has c (low :: '-' :: high :: rest)
  | single {rest : List Char} (hrange : ∀ high more, rest ≠ '-' :: high :: more) :
      Has c (c :: rest)
  | behindSingle {d : Char} {rest : List Char} (hrange : ∀ high more, rest ≠ '-' :: high :: more)
      (h : Has c rest) : Has c (d :: rest)

/-- The pieces of a lowered name that a part describes. -/
inductive Part.Describes : Part → List Char → Prop
  | plain (c : Char) : Describes (.plain c) (lowercase c)
  | anyOne (c : Char) : Describes .anyOne [c]
  | anyRun (piece : List Char) : Describes .anyRun piece
  | within {c : Char} {body : List Char} (h : Has c (body.flatMap lowercase)) :
      Describes (.set false body) [c]
  | outside {c : Char} {body : List Char} (h : ¬ Has c (body.flatMap lowercase)) :
      Describes (.set true body) [c]

/-- The lowered name can be cut into pieces that the parts describe one after another. -/
def Splits (parts : List Part) (text : List Char) : Prop :=
  ∃ pieces, List.Forall₂ Part.Describes parts pieces ∧ pieces.flatten = text

end Wildcard

/-! ## Globs -/

namespace Glob

/-- The text is read as the steps, whatever stands in front of it. -/
def Tokenizes (text : List Char) (tokens : List Token) : Prop :=
  ∀ before fuel, text.length ≤ fuel → readTokens before fuel text = .ok tokens

namespace Tokenizes

variable {text : List Char} {tokens : List Token}

theorem parse (h : Tokenizes text tokens) : Glob.parse text = .ok tokens := h none _ (Nat.le_refl _)

theorem nil : Tokenizes [] [] := by
  intro before fuel _
  cases fuel <;> rfl

theorem anyOne (h : Tokenizes text tokens) : Tokenizes ('?' :: text) (.one .any :: tokens) := by
  intro before fuel hfuel
  obtain ⟨fuel, rfl⟩ := Nat.exists_eq_add_of_le' (Nat.le_of_add_left_le hfuel)
  rw [readTokens, h _ _ (Nat.le_of_succ_le_succ hfuel)]
  rfl

theorem anyRun (h : Tokenizes text tokens) (hstar : text.head? ≠ some '*') :
    Tokenizes ('*' :: text) (.run :: tokens) := by
  intro before fuel hfuel
  obtain ⟨fuel, rfl⟩ := Nat.exists_eq_add_of_le' (Nat.le_of_add_left_le hfuel)
  rw [readTokens, h _ _ (Nat.le_of_succ_le_succ hfuel)]
  · rfl
  · rintro rest rfl
    exact hstar rfl

theorem set {set : CharSet} (h : Tokenizes text tokens) (body : List Char)
    (hset : readSet (body ++ ']' :: text) = some (set, text)) :
    Tokenizes ('[' :: (body ++ ']' :: text)) (.one set :: tokens) := by
  intro before fuel hfuel
  rw [List.length_cons, List.length_append, List.length_cons] at hfuel
  obtain ⟨fuel, rfl⟩ := Nat.exists_eq_add_of_le' (Nat.le_of_add_left_le hfuel)
  rw [readTokens, hset]
  dsimp only
  rw [h _ _ (by omega)]
  rfl

theorem only {c : Char} (h : Tokenizes text tokens) (hc : c ∉ ['*', '?', '[']) :
    Tokenizes (c :: text) (.one (.only c) :: tokens) := by
  intro before fuel hfuel
  simp only [List.mem_cons, List.not_mem_nil, or_false, not_or] at hc
  obtain ⟨fuel, rfl⟩ := Nat.exists_eq_add_of_le' (Nat.le_of_add_left_le hfuel)
  rw [readTokens, h _ _ (Nat.le_of_succ_le_succ hfuel)]
  · rfl
  all_goals simp_all

theorem onlys {cs : List Char} (h : Tokenizes text tokens) (hcs : ∀ c ∈ cs, c ∉ ['*', '?', '[']) :
    Tokenizes (cs ++ text) (cs.map (.one ∘ .only) ++ tokens) := by
  induction cs with
  | nil => exact h
  | cons c cs ih =>
    obtain ⟨hc, hcs⟩ := List.forall_mem_cons.mp hcs
    exact (ih hcs).only hc

end Tokenizes

theorem splitSet_append {first : Char} {more rest : List Char} (h : ']' ∉ more) :
    splitSet (first :: more ++ ']' :: rest) = some (first :: more, rest) := by
  have hopen : ∀ c ∈ more, (c != ']') = true := by
    rintro c hc
    rw [bne_iff_ne]
    rintro rfl
    exact h hc
  rw [List.cons_append, splitSet, List.dropWhile_append_of_pos hopen,
    List.takeWhile_append_of_pos hopen]
  simp

theorem readSet_within {first : Char} {more rest : List Char} (hfirst : first ≠ '!')
    (h : ']' ∉ more) : readSet (first :: more ++ ']' :: rest) =
      some (.within (setParts (first :: more)), rest) := by
  rw [List.cons_append, readSet]
  · rw [← List.cons_append, splitSet_append h]
    rfl
  · exact fun _ h => hfirst (List.cons.inj h).1

theorem readSet_outside {first : Char} {more rest : List Char} (h : ']' ∉ more) :
    readSet ('!' :: first :: more ++ ']' :: rest) =
      some (.outside (setParts (first :: more)), rest) := by
  show (splitSet (first :: more ++ ']' :: rest)).map _ = _
  rw [splitSet_append h]
  rfl

theorem mem_suffixes_iff {rest text : List Char} :
    rest ∈ suffixes text ↔ ∃ piece, text = piece ++ rest := by
  induction text with
  | nil => simp [suffixes, eq_comm]
  | cons c text ih =>
    rw [suffixes, List.mem_cons, ih]
    constructor
    · rintro (rfl | ⟨piece, rfl⟩)
      · exact ⟨[], rfl⟩
      · exact ⟨c :: piece, rfl⟩
    · rintro ⟨piece, hpiece⟩
      cases piece with
      | nil => exact .inl hpiece.symm
      | cons d piece => exact .inr ⟨piece, (List.cons.inj hpiece).2⟩

theorem describes_run_iff {tokens : List Token} {text : List Char} :
    describes (.run :: tokens) text = true ↔
      ∃ piece rest, text = piece ++ rest ∧ describes tokens rest = true := by
  simp only [describes, List.any_eq_true, mem_suffixes_iff]
  constructor
  · rintro ⟨rest, ⟨piece, hpiece⟩, h⟩
    exact ⟨piece, rest, hpiece, h⟩
  · rintro ⟨piece, rest, hpiece, h⟩
    exact ⟨rest, ⟨piece, hpiece⟩, h⟩

theorem describes_one_iff {set : CharSet} {tokens : List Token} {text : List Char} :
    describes (.one set :: tokens) text = true ↔
      ∃ c rest, text = c :: rest ∧ set.holds c = true ∧ describes tokens rest = true := by
  cases text with
  | nil => simp [describes]
  | cons c text => simp [describes]

theorem describes_onlys_iff {cs : List Char} {tokens : List Token} {text : List Char} :
    describes (cs.map (.one ∘ .only) ++ tokens) text = true ↔
      ∃ rest, text = cs ++ rest ∧ describes tokens rest = true := by
  induction cs generalizing text with
  | nil => simp
  | cons c cs ih =>
    rw [List.map_cons, List.cons_append, Function.comp_apply, describes_one_iff]
    simp only [CharSet.holds, beq_iff_eq, ih]
    constructor
    · rintro ⟨_, _, rfl, rfl, rest, rfl, h⟩
      exact ⟨rest, rfl, h⟩
    · rintro ⟨rest, rfl, h⟩
      exact ⟨c, _, rfl, rfl, rest, rfl, h⟩

end Glob

namespace Wildcard

open Glob (Token Tokenizes describes)

/-! ## Sets -/

theorem has_iff {c : Char} {body : List Char} :
    Has c body ↔ ((Glob.setParts body).any (·.holds c)) = true := by
  fun_induction Glob.setParts body with
  | case1 low high rest ih =>
    rw [List.any_cons, Bool.or_eq_true, ← ih, Glob.SetPart.holds, Bool.and_eq_true,
      decide_eq_true_eq, decide_eq_true_eq]
    constructor
    · intro h
      cases h with
      | inRange hlow hhigh => exact .inl ⟨hlow, hhigh⟩
      | behindRange h => exact .inr h
      | single hrange => exact absurd rfl (hrange high rest)
      | behindSingle hrange => exact absurd rfl (hrange high rest)
    · rintro (⟨hlow, hhigh⟩ | h)
      · exact .inRange hlow hhigh
      · exact .behindRange h
  | case2 d rest hrange ih =>
    replace hrange : ∀ high more, rest ≠ '-' :: high :: more := fun high more h =>
      hrange high more h
    rw [List.any_cons, Bool.or_eq_true, ← ih, Glob.SetPart.holds, beq_iff_eq]
    constructor
    · intro h
      cases h with
      | inRange => exact absurd rfl (hrange _ _)
      | behindRange => exact absurd rfl (hrange _ _)
      | single => exact .inl rfl
      | behindSingle _ h => exact .inr h
    · rintro (rfl | h)
      · exact .single hrange
      · exact .behindSingle hrange h
  | case3 => exact ⟨nofun, nofun⟩

/-- What stands in a set is the same in the glob. -/
theorem toGlob_body {body rest : List Char} (hescape : '\x60' ∉ body)
    (hsingle : body.IsChain fun a b => ¬(a = '*' ∧ b = '*')) (afterStar : Bool)
    (hfirst : afterStar = true → body.head? ≠ some '*') :
    toGlob afterStar (body ++ ']' :: rest) = body ++ ']' :: toGlob false rest := by
  induction body generalizing afterStar with
  | nil => exact toGlob_ordinary (by decide) afterStar (by decide)
  | cons c body ih =>
    rw [List.mem_cons, not_or] at hescape
    rw [List.isChain_cons] at hsingle
    by_cases hstar : c = '*'
    · subst hstar
      have hopen : afterStar = false := by
        cases afterStar with
        | false => rfl
        | true => exact absurd rfl (hfirst rfl)
      rw [hopen]
      exact congrArg ('*' :: ·) (ih hescape.2 hsingle.2 true fun _ hnext =>
        hsingle.1 _ hnext ⟨rfl, rfl⟩)
    · rw [List.cons_append, toGlob_ordinary (Ne.symm hescape.1) afterStar hstar,
        ih hescape.2 hsingle.2 false (fun h => by cases h)]
      rfl

/-! ## Cutting into pieces -/

theorem splits_nil_iff {text : List Char} : Splits [] text ↔ text = [] := by
  constructor
  · rintro ⟨pieces, hpieces, rfl⟩
    cases hpieces
    rfl
  · rintro rfl
    exact ⟨[], .nil, rfl⟩

theorem splits_cons_iff {part : Part} {parts : List Part} {text : List Char} :
    Splits (part :: parts) text ↔
      ∃ piece rest, text = piece ++ rest ∧ part.Describes piece ∧ Splits parts rest := by
  constructor
  · rintro ⟨pieces, hpieces, rfl⟩
    cases hpieces with
    | @cons _ piece _ pieces hpiece hpieces => exact ⟨piece, _, rfl, hpiece, pieces, hpieces, rfl⟩
  · rintro ⟨piece, _, rfl, hpiece, pieces, hpieces, rfl⟩
    exact ⟨piece :: pieces, .cons hpiece hpieces, rfl⟩

theorem splits_plain_iff {cs text : List Char} :
    Splits (cs.map .plain) text ↔ text = cs.flatMap lowercase := by
  induction cs generalizing text with
  | nil => exact splits_nil_iff
  | cons c cs ih =>
    rw [List.map_cons, splits_cons_iff, List.flatMap_cons]
    constructor
    · rintro ⟨_, rest, rfl, ⟨⟩, hrest⟩
      rw [ih.mp hrest]
    · rintro rfl
      exact ⟨_, _, rfl, .plain c, ih.mpr rfl⟩

/-- The steps of a glob describe what the parts of a pattern do. -/
def Means (tokens : List Token) (parts : List Part) : Prop :=
  ∀ text, describes tokens text = true ↔ Splits parts text

namespace Means

variable {tokens : List Token} {parts : List Part}

theorem nil : Means [] [] := fun text => by rw [splits_nil_iff, describes, List.isEmpty_iff]

theorem plain (h : Means tokens parts) (c : Char) :
    Means ((lowercase c).map (.one ∘ .only) ++ tokens) (.plain c :: parts) := by
  intro text
  rw [Glob.describes_onlys_iff, splits_cons_iff]
  constructor
  · rintro ⟨rest, rfl, hrest⟩
    exact ⟨_, rest, rfl, .plain c, (h rest).mp hrest⟩
  · rintro ⟨_, rest, rfl, ⟨⟩, hrest⟩
    exact ⟨rest, rfl, (h rest).mpr hrest⟩

theorem anyRun (h : Means tokens parts) : Means (.run :: tokens) (.anyRun :: parts) := by
  intro text
  rw [Glob.describes_run_iff, splits_cons_iff]
  constructor
  · rintro ⟨piece, rest, rfl, hrest⟩
    exact ⟨piece, rest, rfl, .anyRun piece, (h rest).mp hrest⟩
  · rintro ⟨piece, rest, rfl, -, hrest⟩
    exact ⟨piece, rest, rfl, (h rest).mpr hrest⟩

theorem one (h : Means tokens parts) {set : Glob.CharSet} {part : Part}
    (hset : ∀ piece, part.Describes piece ↔ ∃ c, piece = [c] ∧ set.holds c = true) :
    Means (.one set :: tokens) (part :: parts) := by
  intro text
  rw [Glob.describes_one_iff, splits_cons_iff]
  constructor
  · rintro ⟨c, rest, rfl, hc, hrest⟩
    exact ⟨[c], rest, rfl, (hset _).mpr ⟨c, rfl, hc⟩, (h rest).mp hrest⟩
  · rintro ⟨piece, rest, rfl, hpiece, hrest⟩
    obtain ⟨c, rfl, hc⟩ := (hset piece).mp hpiece
    exact ⟨c, rest, rfl, hc, (h rest).mpr hrest⟩

/-- Two runs describe what one run does. -/
theorem anyRun_again (h : Means (.run :: tokens) (.anyRun :: parts)) :
    Means (.run :: tokens) (.anyRun :: .anyRun :: parts) := by
  intro text
  rw [h, splits_cons_iff, splits_cons_iff]
  constructor
  · rintro ⟨piece, rest, rfl, hpiece, hrest⟩
    exact ⟨[], _, rfl, .anyRun [], splits_cons_iff.mpr ⟨piece, rest, rfl, hpiece, hrest⟩⟩
  · rintro ⟨piece, _, rfl, -, hrest⟩
    obtain ⟨next, rest, rfl, -, hrest⟩ := splits_cons_iff.mp hrest
    exact ⟨piece ++ next, rest, (List.append_assoc ..).symm, .anyRun _, hrest⟩

end Means

/-! ## From the parts to the glob -/

/-- The glob of a pattern, lowered, is read as steps that describe what the parts do; with a star
in front of both, if the glob is that behind a star. -/
structure Translates (afterStar : Bool) (cs : List Char) (parts : List Part)
    (tokens : List Token) : Prop where
  tokenizes : Tokenizes ((toGlob afterStar cs).flatMap lowercase) tokens
  means : Means (if afterStar then .run :: tokens else tokens)
    (if afterStar then .anyRun :: parts else parts)

theorem Translates.of_means {afterStar : Bool} {cs : List Char} {parts : List Part}
    {tokens : List Token} (h : Tokenizes ((toGlob afterStar cs).flatMap lowercase) tokens)
    (hmeans : Means tokens parts) : Translates afterStar cs parts tokens := by
  refine ⟨h, ?_⟩
  cases afterStar with
  | false => exact hmeans
  | true => exact hmeans.anyRun

/-- Behind a star the glob has no other one. -/
theorem head?_toGlob_ne (cs : List Char) : (toGlob true cs).head? ≠ some '*' := by
  induction cs using escapeInduction with
  | nil => exact nofun
  | lone => exact nofun
  | escaped c rest =>
    show (literal c ++ _).head? ≠ _
    unfold literal
    split
    · simp
    next hc =>
      rintro h
      obtain rfl : c = '*' := by simpa using h
      simp at hc
  | ordinary c rest hc ih =>
    by_cases hstar : c = '*'
    · rw [hstar]
      exact ih
    · rw [toGlob_ordinary hc true hstar]
      simpa using hstar

theorem head?_flatMap_lowercase_ne {cs : List Char} (h : cs.head? ≠ some '*') :
    (cs.flatMap lowercase).head? ≠ some '*' := by
  cases cs with
  | nil => exact nofun
  | cons c cs =>
    obtain ⟨first, more, hlower⟩ := List.exists_cons_of_ne_nil (lowercase_ne_nil c)
    rw [List.flatMap_cons, hlower]
    rintro hfirst
    obtain rfl : first = '*' := by simpa using hfirst
    obtain rfl : c = '*' := eq_of_mem_lowercase (by decide) (hlower ▸ List.mem_cons_self)
    exact h rfl

/-- A character that is no wildcard has none in its lower-case form. -/
theorem notMem_of_lowercase {c : Char} (hc : c ∉ ['*', '?', '[']) :
    ∀ d ∈ lowercase c, d ∉ ['*', '?', '['] := by
  intro d hd hwild
  have hmeta : d ∈ metacharacters :=
    (by decide : ['*', '?', '['] ⊆ metacharacters) hwild
  exact hc (eq_of_mem_lowercase hmeta hd ▸ hwild)

theorem describes_anyOne_iff {piece : List Char} :
    Part.anyOne.Describes piece ↔ ∃ c, piece = [c] ∧ Glob.CharSet.any.holds c = true := by
  constructor
  · rintro ⟨⟩
    exact ⟨_, rfl, rfl⟩
  · rintro ⟨c, rfl, -⟩
    exact .anyOne c

theorem describes_plain_iff {c : Char} (hc : lowercase c = [c]) {piece : List Char} :
    (Part.plain c).Describes piece ↔
      ∃ d, piece = [d] ∧ (Glob.CharSet.within (Glob.setParts [c])).holds d = true := by
  simp only [Glob.setParts, Glob.CharSet.holds, Glob.SetPart.holds, List.any_cons, List.any_nil,
    Bool.or_false, beq_iff_eq]
  constructor
  · rintro ⟨⟩
    exact ⟨c, hc, rfl⟩
  · rintro ⟨_, rfl, rfl⟩
    exact hc ▸ .plain _

theorem describes_within_iff {body piece : List Char} :
    (Part.set false body).Describes piece ↔ ∃ c, piece = [c] ∧
      (Glob.CharSet.within (Glob.setParts (body.flatMap lowercase))).holds c = true := by
  constructor
  · rintro ⟨⟩
    exact ⟨_, rfl, has_iff.mp ‹_›⟩
  · rintro ⟨c, rfl, h⟩
    exact .within (has_iff.mpr h)

theorem describes_outside_iff {body piece : List Char} :
    (Part.set true body).Describes piece ↔ ∃ c, piece = [c] ∧
      (Glob.CharSet.outside (Glob.setParts (body.flatMap lowercase))).holds c = true := by
  have hiff (c : Char) :
      (Glob.CharSet.outside (Glob.setParts (body.flatMap lowercase))).holds c = true ↔
        ¬ Has c (body.flatMap lowercase) := by
    rw [has_iff, Glob.CharSet.holds, Bool.not_eq_true', Bool.not_eq_true]
  constructor
  · rintro ⟨⟩
    exact ⟨_, rfl, (hiff _).mpr ‹_›⟩
  · rintro ⟨c, rfl, h⟩
    exact .outside ((hiff c).mp h)

/-- An escaped character becomes a set of one character if it has a meaning in globs. -/
theorem exists_literal {text : List Char} {tokens : List Token} {parts : List Part}
    (htokens : Tokenizes text tokens) (hmeans : Means tokens parts) (c : Char) :
    ∃ more, Tokenizes ((literal c).flatMap lowercase ++ text) more ∧
      Means more (.plain c :: parts) := by
  by_cases hset : c ∈ ['*', '?', '[', ']']
  · obtain ⟨hliteral, hlower, hfirst⟩ :
        (literal c).flatMap lowercase = ['[', c, ']'] ∧ lowercase c = [c] ∧ c ≠ '!' := by
      simp only [List.mem_cons, List.not_mem_nil, or_false] at hset
      rcases hset with rfl | rfl | rfl | rfl <;> decide
    refine ⟨_, ?_, hmeans.one fun _ => describes_plain_iff hlower⟩
    rw [hliteral]
    exact htokens.set [c] (Glob.readSet_within hfirst List.not_mem_nil)
  · simp only [List.mem_cons, List.not_mem_nil, or_false, not_or] at hset
    refine ⟨_, ?_, hmeans.plain c⟩
    rw [show literal c = [c] by simp [literal, hset], List.flatMap_singleton]
    exact htokens.onlys (notMem_of_lowercase (by simp [hset]))

/-- Lowering a set leaves its first character apart from the rest, and closes it nowhere else. -/
theorem exists_lower (first : Char) {more : List Char} (hopen : ']' ∉ more) :
    ∃ lower rest, (first :: more).flatMap lowercase = lower :: rest ∧ ']' ∉ rest ∧
      (first ≠ '!' → lower ≠ '!') := by
  have hmore : ']' ∉ more.flatMap lowercase := by
    rwa [mem_flatMap_lowercase_iff (by decide)]
  rw [List.flatMap_cons]
  rcases lowercase_cases first with ⟨-, hlower⟩ | ⟨-, lower, rest, hlower, hplain, hrest⟩
  · exact ⟨first, _, by rw [hlower]; rfl, hmore, id⟩
  · refine ⟨lower, rest ++ more.flatMap lowercase, by rw [hlower]; rfl, ?_, fun _ =>
      ne_of_notMem hplain (by decide)⟩
    rw [List.mem_append, not_or]
    exact ⟨fun hclose => hrest _ hclose (by decide), hmore⟩

theorem IsBody.toGlob {first : Char} {more : List Char} (h : IsBody first more) (rest : List Char) :
    toGlob false (first :: more ++ ']' :: rest) = first :: more ++ ']' :: toGlob false rest :=
  toGlob_body h.unescaped h.starsApart false nofun

namespace Reads

variable {cs : List Char} {parts : List Part}

/-- By induction on the parts; a run is the only part that asks what stands in front of it. -/
theorem translates (h : Reads cs parts) (afterStar : Bool) :
    ∃ tokens, Translates afterStar cs parts tokens := by
  induction h generalizing afterStar with
  | nil => exact ⟨[], .of_means .nil .nil⟩
  | lone => exact ⟨[], .of_means .nil .nil⟩
  | @escaped rest parts c _ ih =>
    obtain ⟨tokens, htokens, hmeans⟩ := ih false
    obtain ⟨more, hmore, hmeans⟩ := exists_literal htokens hmeans c
    refine ⟨more, .of_means ?_ hmeans⟩
    rwa [toGlob, List.flatMap_append]
  | @ordinary c rest parts hc _ ih =>
    obtain ⟨tokens, htokens, hmeans⟩ := ih false
    simp only [List.mem_cons, List.not_mem_nil, or_false, not_or] at hc
    refine ⟨_, .of_means ?_ (hmeans.plain c)⟩
    rw [toGlob_ordinary hc.1 afterStar hc.2.1, List.flatMap_cons]
    exact htokens.onlys (notMem_of_lowercase (by simp [hc]))
  | anyOne _ ih =>
    obtain ⟨tokens, htokens, hmeans⟩ := ih false
    refine ⟨_, .of_means ?_ (hmeans.one fun _ => describes_anyOne_iff)⟩
    rw [toGlob_ordinary (by decide) afterStar (by decide)]
    exact htokens.anyOne
  | @anyRun rest parts _ ih =>
    obtain ⟨tokens, htokens, hmeans⟩ := ih true
    cases afterStar with
    | false =>
      exact ⟨.run :: tokens, htokens.anyRun (head?_flatMap_lowercase_ne (head?_toGlob_ne rest)),
        hmeans⟩
    | true => exact ⟨tokens, htokens, Means.anyRun_again hmeans⟩
  | @within first more rest parts hfirst hbody _ ih =>
    obtain ⟨tokens, htokens, hmeans⟩ := ih false
    obtain ⟨lower, tail, hlower, hopen, hplain⟩ := exists_lower first hbody.unclosed
    refine ⟨_, .of_means ?_ (hmeans.one fun _ => describes_within_iff)⟩
    rw [List.cons_append, toGlob_ordinary (by decide) afterStar (by decide), hbody.toGlob,
      List.flatMap_cons, List.flatMap_append, hlower]
    exact htokens.set (lower :: tail) (Glob.readSet_within (hplain hfirst) hopen)
  | @outside first more rest parts hbody _ ih =>
    obtain ⟨tokens, htokens, hmeans⟩ := ih false
    obtain ⟨lower, tail, hlower, hopen, -⟩ := exists_lower first hbody.unclosed
    refine ⟨_, .of_means ?_ (hmeans.one fun _ => describes_outside_iff)⟩
    rw [List.cons_append, List.cons_append, toGlob_ordinary (by decide) afterStar (by decide),
      toGlob_ordinary (by decide) false (by decide), hbody.toGlob, List.flatMap_cons,
      List.flatMap_cons, List.flatMap_append, hlower]
    exact htokens.set ('!' :: lower :: tail) (Glob.readSet_outside hopen)

/-- A pattern without wildcards is read as the characters that stand for themselves. -/
theorem eq_map_plain (h : Reads cs parts) (hw : hasWildcards cs = false) :
    parts = (unescape cs).map .plain := by
  induction h with
  | nil | lone => rfl
  | escaped c _ ih => exact congrArg (.plain c :: ·) (ih hw)
  | @ordinary c rest parts hc _ ih =>
    rw [List.mem_cons, not_or] at hc
    rw [hasWildcards_ordinary hc.1, Bool.or_eq_false_iff] at hw
    rw [unescape_ordinary hc.1, List.map_cons, ih hw.2]
  | anyOne | anyRun | within | outside => cases hw

/-- The body of a set is all that stands before the bracket that closes it. -/
theorem body_unique {first first' : Char} {more more' rest rest' : List Char} (hopen : ']' ∉ more)
    (hopen' : ']' ∉ more')
    (h : first :: more ++ ']' :: rest = first' :: more' ++ ']' :: rest') :
    first = first' ∧ more = more' ∧ rest = rest' := by
  have hsplit := @Glob.splitSet_append first _ rest hopen
  rw [h, Glob.splitSet_append hopen'] at hsplit
  cases hsplit
  exact ⟨rfl, rfl, rfl⟩

theorem unique (h : Reads cs parts) {other : List Part} (hother : Reads cs other) :
    other = parts := by
  have hopening : '[' ∈ ['\x60', '*', '?', '['] := by decide
  induction h generalizing other with
  | nil =>
    cases hother
    rfl
  | lone =>
    cases hother with
    | lone => rfl
    | ordinary hc => exact absurd (by decide) hc
  | escaped c _ ih =>
    cases hother with
    | escaped _ h => rw [ih h]
    | ordinary hc => exact absurd (by decide) hc
  | @ordinary c rest parts hc _ ih =>
    generalize hcs : c :: rest = cs at hother
    cases hother with
    | ordinary _ h =>
      cases hcs
      rw [ih h]
    | nil => cases hcs
    | lone | escaped | anyOne | anyRun | within | outside =>
      cases hcs
      exact absurd (by decide) hc
  | anyOne _ ih =>
    cases hother with
    | anyOne h => rw [ih h]
    | ordinary hc => exact absurd (by decide) hc
  | anyRun _ ih =>
    cases hother with
    | anyRun h => rw [ih h]
    | ordinary hc => exact absurd (by decide) hc
  | @within first more rest parts hfirst hbody _ ih =>
    generalize hcs : '[' :: first :: more ++ ']' :: rest = cs at hother
    cases hother with
    | within hfirst' hbody' h =>
      obtain ⟨rfl, rfl, rfl⟩ := body_unique hbody.unclosed hbody'.unclosed (List.cons.inj hcs).2
      rw [ih h]
    | outside => exact absurd (List.cons.inj (List.cons.inj hcs).2).1 hfirst
    | ordinary hc => exact absurd ((List.cons.inj hcs).1 ▸ hopening) hc
    | nil | lone | escaped | anyOne | anyRun => cases hcs
  | @outside first more rest parts hbody _ ih =>
    generalize hcs : '[' :: '!' :: first :: more ++ ']' :: rest = cs at hother
    cases hother with
    | within hfirst => exact absurd (List.cons.inj (List.cons.inj hcs).2).1.symm hfirst
    | outside hbody' h =>
      obtain ⟨rfl, rfl, rfl⟩ := body_unique hbody.unclosed hbody'.unclosed
        (List.cons.inj (List.cons.inj hcs).2).2
      rw [ih h]
    | ordinary hc => exact absurd ((List.cons.inj hcs).1 ▸ hopening) hc
    | nil | lone | escaped | anyOne | anyRun => cases hcs

end Reads

theorem reads_star {parts : List Part} (h : Reads ['*'] parts) : parts = [.anyRun] :=
  Reads.unique (.anyRun .nil) h

/-- A pattern means what its parts mean, whichever way it is read. -/
theorem accepts_iff_splits {pattern : String} {parts : List Part}
    (h : Reads pattern.toList parts) : (∀ other, Reads pattern.toList other → other = parts) ∧
      ∃ w, parse pattern = .ok w ∧ ∀ name, w.accepts name = true ↔ Splits parts (fold name) := by
  refine ⟨fun _ => h.unique, ?_⟩
  suffices hlowered :
      ∃ f, lowered (fold pattern) = .ok f ∧ ∀ text, f text = true ↔ Splits parts text by
    obtain ⟨f, hf, hsplits⟩ := hlowered
    rcases parse_eq_lowered pattern with ⟨g, w, hg, hw, haccepts⟩ | ⟨fault, hfault, -⟩
    · cases hf.symm.trans hg
      exact ⟨w, hw, fun name => by rw [haccepts, hsplits]⟩
    · cases hf.symm.trans hfault
  have hwildcards : hasWildcards (fold pattern) = hasWildcards pattern.toList :=
    hasWildcards_flatMap_lowercase _
  unfold lowered
  split
  next hstar =>
    obtain rfl := eq_star_iff.mpr hstar
    obtain rfl := reads_star h
    refine ⟨_, rfl, fun text => iff_of_true rfl (splits_cons_iff.mpr ?_)⟩
    exact ⟨text, [], (List.append_nil text).symm, .anyRun text, splits_nil_iff.mpr rfl⟩
  next =>
    split
    next =>
      obtain ⟨tokens, htokens, hmeans⟩ := h.translates false
      rw [← toGlob_flatMap_lowercase] at htokens
      have hparse : Glob.parse (toGlob false (fold pattern)) = .ok tokens := htokens.parse
      rw [hparse]
      exact ⟨_, rfl, fun text => by rw [Glob.accepts_eq_describes]; exact hmeans text⟩
    next hw =>
      rw [hwildcards, Bool.not_eq_true] at hw
      refine ⟨_, rfl, fun text => ?_⟩
      rw [h.eq_map_plain hw, splits_plain_iff, beq_iff_eq, fold, unescape_flatMap_lowercase,
        eq_comm]

/-- A range in a set, a run, an escaped star, a negated set and a backtick at the end. -/
def richPattern : String := "[A-C\u0130]**\x60*[!*]\x60"

def richParts : List Part :=
  [.set false ['A', '-', 'C', '\u0130'], .anyRun, .anyRun, .plain '*', .set true ['*']]

theorem reads_richPattern : Reads richPattern.toList richParts := by
  have htext : richPattern.toList = '[' :: 'A' :: ['-', 'C', '\u0130'] ++ ']' :: '*' :: '*' ::
      '\x60' :: '*' :: ('[' :: '!' :: '*' :: [] ++ ']' :: ['\x60']) := by
    decide +kernel
  rw [htext]
  exact .within (by decide) ⟨by decide, by decide, by decide⟩ (.anyRun (.anyRun (.escaped '*'
    (.outside ⟨by decide, by decide, by decide⟩ .lone))))

theorem accepts_iff_splits_rich : Reads richPattern.toList richParts ∧
    (∃ w, parse richPattern = .ok w ∧ w.accepts "b.x**-" = true ∧ w.accepts "b**" = false) ∧
    Splits richParts (fold "b.x**-") := by
  obtain ⟨-, w, hw, haccepts⟩ := accepts_iff_splits reads_richPattern
  have hrun : (parse richPattern).toOption.map (fun w => (w.accepts "b.x**-", w.accepts "b**")) =
      some (true, false) := by
    decide +kernel
  rw [hw] at hrun
  obtain ⟨hyes, hno⟩ := Prod.mk.inj (Option.some.inj hrun)
  exact ⟨reads_richPattern, ⟨w, hw, hyes, hno⟩, (haccepts _).mp hyes⟩

end Wildcard

end DynamicMembers
