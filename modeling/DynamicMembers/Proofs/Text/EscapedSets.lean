import DynamicMembers.Proofs.Text.PatternMeaning

/-! # Escapes inside sets

Outside a set a backtick in front of a character makes it stand for itself. Inside a set it does
not: a character with a meaning gets brackets of its own there, of which the closing one ends
the set, and in front of any other character the backtick is dropped, so that `!` and `-` keep
their meaning. What is read of a set whose characters are all escaped is said by
`Wildcard.finds_spilled` for a set that ends too early and by `Wildcard.finds_unspilled` for
one that does not. It stands for the characters written in it only if it does not end too early
and what is left without the backticks describes them (`Wildcard.readsEscapes_escapedSet`).
-/
namespace DynamicMembers

namespace Wildcard

open Glob (Tokenizes)

def escapedSet (cs : List Char) : String :=
  String.ofList ('[' :: cs.flatMap (fun c => ['\x60', c]) ++ [']'])

def SingleCase (cs : List Char) : Prop := ∀ c ∈ cs, ∃ d, lowercase c = [d]

/-- The pattern stands for one of the characters: it finds the names that are one of them without
regard to case, and none of another length. -/
structure StandsFor (pattern : Wildcard) (cs : List Char) : Prop where
  one : ∀ x, SingleCase [x] → (pattern.accepts (String.singleton x) = true ↔
    ∃ c ∈ cs, sameName (String.singleton x) (String.singleton c) = true)
  others : ∀ name : String, SingleCase name.toList → name.length ≠ 1 →
    pattern.accepts name = false

/-- The pattern is read, and finds the names that can be cut into pieces that the parts describe. -/
def Finds (pattern : String) (parts : List Part) : Prop :=
  ∃ w, parse pattern = .ok w ∧ ∀ name, w.accepts name = true ↔ Splits parts (fold name)

def bracketed : List Char := ['*', '?', '[', ']']

/-- The part that is read between brackets, if these can be the brackets of a set. -/
def setOf : List Char → Option Part
  | [] => none
  | first :: more =>
    if first ≠ '!' then some (.set false (first :: more))
    else if more = [] then none
    else some (.set true more)

/-- Of the brackets around a character, what stays in the set that the first of them is in. -/
def kept (c : Char) : List Char := if c = ']' then ['['] else ['[', c]

/-- Of the brackets around a character, what stands behind the set that they end. -/
def spilled (c : Char) : List Char := if c = ']' then [']'] else []

/-! ## The glob of a set of escaped characters -/

theorem literal_of_notMem_bracketed {c : Char} (h : c ∉ bracketed) : literal c = [c] := by
  simp only [bracketed, List.mem_cons, List.not_mem_nil, or_false, not_or] at h
  simp [literal, h]

theorem literal_of_mem_bracketed {c : Char} (h : c ∈ bracketed) :
    literal c = kept c ++ ']' :: spilled c := by
  simp only [bracketed, List.mem_cons, List.not_mem_nil, or_false] at h
  rcases h with rfl | rfl | rfl | rfl <;> rfl

theorem flatMap_literal {cs : List Char} (h : ∀ c ∈ cs, c ∉ bracketed) :
    cs.flatMap literal = cs := by
  induction cs with
  | nil => rfl
  | cons c cs ih =>
    obtain ⟨hc, hcs⟩ := List.forall_mem_cons.mp h
    rw [List.flatMap_cons, literal_of_notMem_bracketed hc, ih hcs, List.singleton_append]

theorem toGlob_escaped (cs rest : List Char) :
    toGlob false (cs.flatMap (fun c => ['\x60', c]) ++ rest) =
      cs.flatMap literal ++ toGlob false rest := by
  induction cs with
  | nil => rfl
  | cons c cs ih =>
    show literal c ++ toGlob false (cs.flatMap (fun c => ['\x60', c]) ++ rest) = _
    rw [ih, List.flatMap_cons, List.append_assoc]

/-- The glob, as it is written once the pattern is lowered. -/
def escapedGlob (cs : List Char) : List Char :=
  '[' :: ((cs.flatMap literal).flatMap lowercase ++ [']'])

theorem parse_escapedSet (cs : List Char) : parse (escapedSet cs) =
    match Glob.parse (escapedGlob cs) with
    | .ok tokens => .ok ⟨escapedSet cs, .glob tokens⟩
    | .error fault => .error ⟨escapedSet cs, fault⟩ := by
  have htext : (escapedSet cs).toList = '[' :: cs.flatMap (fun c => ['\x60', c]) ++ [']'] :=
    String.toList_ofList
  have hstar : (escapedSet cs == "*") = false := by
    rw [beq_eq_false_iff_ne]
    intro h
    rw [h] at htext
    cases htext
  have hwildcards : hasWildcards (escapedSet cs).toList = true := by
    rw [htext]
    rfl
  have hglob : (toGlob false (escapedSet cs).toList).flatMap lowercase = escapedGlob cs := by
    rw [htext, List.cons_append, toGlob_ordinary (by decide) false (by decide), toGlob_escaped,
      List.flatMap_cons, List.flatMap_append]
    rfl
  rw [parse, hstar, hwildcards, hglob]
  rfl

theorem finds_of_tokenizes {cs : List Char} {tokens : List Glob.Token} {parts : List Part}
    (h : Tokenizes (escapedGlob cs) tokens) (hmeans : Means tokens parts) :
    Finds (escapedSet cs) parts := by
  refine ⟨⟨escapedSet cs, .glob tokens⟩, by rw [parse_escapedSet, h.parse], fun name => ?_⟩
  rw [← hmeans (fold name), ← Glob.accepts_eq_describes]
  rfl

/-- A set is read up to the first bracket that closes it, as the part that stands there. -/
theorem readSet_of_setOf {body : List Char} {part : Part} (h : setOf body = some part)
    (hopen : ']' ∉ body) (behind : List Char) : ∃ set,
      Glob.readSet (body.flatMap lowercase ++ ']' :: behind) = some (set, behind) ∧
        ∀ piece, part.Describes piece ↔ ∃ c, piece = [c] ∧ set.holds c = true := by
  cases body with
  | nil => cases h
  | cons first more =>
    rw [List.mem_cons, not_or] at hopen
    rw [setOf] at h
    by_cases hfirst : first = '!'
    · rw [if_neg (not_not.mpr hfirst)] at h
      cases more with
      | nil => cases h
      | cons second more =>
        cases h
        rw [List.mem_cons, not_or] at hopen
        obtain ⟨lower, rest, hlower, hrest, -⟩ := exists_lower second hopen.2.2
        refine ⟨_, ?_, fun piece => describes_outside_iff⟩
        rw [hfirst, List.flatMap_cons, lowercase_metacharacter (by decide), hlower]
        exact Glob.readSet_outside hrest
    · rw [if_pos hfirst] at h
      cases h
      obtain ⟨lower, rest, hlower, hrest, hplain⟩ := exists_lower first hopen.2
      refine ⟨_, ?_, fun piece => describes_within_iff⟩
      rw [hlower]
      exact Glob.readSet_within (hplain hfirst) hrest

theorem notMem_close {cs : List Char} (h : ∀ c ∈ cs, c ∉ bracketed) : ']' ∉ cs :=
  fun hclose => h ']' hclose (by decide)

/-- No character gets brackets of its own: the set is what is left without the backticks, if that
is a set. -/
theorem finds_unspilled {cs : List Char} (hplain : ∀ c ∈ cs, c ∉ bracketed) {part : Part}
    (hpart : setOf cs = some part) : Finds (escapedSet cs) [part] := by
  obtain ⟨set, hset, hdescribes⟩ := readSet_of_setOf hpart (notMem_close hplain) []
  refine finds_of_tokenizes ?_ (Means.nil.one hdescribes)
  rw [escapedGlob, flatMap_literal hplain]
  exact Tokenizes.nil.set _ hset

/-- What is left is no set only where that is a single `!`; then the pattern is refused. -/
theorem refused_of_setOf {cs : List Char} (hne : cs ≠ []) (hpart : setOf cs = none) :
    cs = ['!'] ∧ parse (escapedSet cs) = .error ⟨escapedSet cs, .unclosedSet⟩ := by
  obtain ⟨first, more, rfl⟩ := List.exists_cons_of_ne_nil hne
  rw [setOf] at hpart
  by_cases hfirst : first = '!'
  · by_cases hmore : more = []
    · subst hfirst hmore
      exact ⟨rfl, by decide +kernel⟩
    · simp [hfirst, hmore] at hpart
  · simp [hfirst] at hpart

/-- What stands behind a set that ended too early is read as characters that stand for
themselves, with the bracket that should have ended the set. -/
theorem exists_literals (cs : List Char) : ∃ tokens,
    Tokenizes ((cs.flatMap literal).flatMap lowercase ++ [']']) tokens ∧
      Means tokens ((cs ++ [']']).map .plain) := by
  induction cs with
  | nil => exact ⟨_, Tokenizes.nil.only (by decide), Means.nil.plain ']'⟩
  | cons c cs ih =>
    obtain ⟨tokens, htokens, hmeans⟩ := ih
    obtain ⟨more, hmore, hmeans⟩ := exists_literal htokens hmeans c
    refine ⟨more, ?_, hmeans⟩
    rwa [List.flatMap_cons, List.flatMap_append, List.append_assoc]

theorem exists_spilled (c : Char) (cs : List Char) : ∃ tokens,
    Tokenizes (spilled c ++ ((cs.flatMap literal).flatMap lowercase ++ [']'])) tokens ∧
      Means tokens ((spilled c ++ cs ++ [']']).map .plain) := by
  obtain ⟨tokens, htokens, hmeans⟩ := exists_literals cs
  unfold spilled
  split
  · exact ⟨_, htokens.only (by decide), hmeans.plain ']'⟩
  · exact ⟨tokens, htokens, hmeans⟩

theorem setOf_kept (before : List Char) (c : Char) :
    ∃ part, setOf (before ++ kept c) = some part := by
  have hkept : ∃ more, kept c = '[' :: more := by
    unfold kept
    split <;> exact ⟨_, rfl⟩
  obtain ⟨more, hkept⟩ := hkept
  rw [hkept]
  cases before with
  | nil => exact ⟨_, rfl⟩
  | cons first rest =>
    by_cases hfirst : first = '!' <;> simp [setOf, hfirst]

/-- The first character that gets brackets of its own ends the set; everything behind it has to
follow in the name. -/
theorem finds_spilled {before : List Char} {c : Char} (hplain : ∀ d ∈ before, d ∉ bracketed)
    (hc : c ∈ bracketed) (behind : List Char) : ∃ part, setOf (before ++ kept c) = some part ∧
      Finds (escapedSet (before ++ c :: behind))
        (part :: (spilled c ++ behind ++ [']']).map .plain) := by
  obtain ⟨part, hpart⟩ := setOf_kept before c
  have hopen : ']' ∉ before ++ kept c := by
    have hkept : ']' ∉ kept c := by
      by_cases hclose : c = ']' <;> simp [kept, hclose, eq_comm]
    simp [notMem_close hplain, hkept]
  have hlower : lowercase ']' = [']'] := lowercase_metacharacter (by decide)
  have hspilled : (spilled c).flatMap lowercase = spilled c := by
    by_cases hclose : c = ']' <;> simp [spilled, hclose, hlower]
  obtain ⟨tokens, htokens, hmeans⟩ := exists_spilled c behind
  obtain ⟨set, hset, hdescribes⟩ := readSet_of_setOf hpart hopen
    (spilled c ++ ((behind.flatMap literal).flatMap lowercase ++ [']']))
  refine ⟨part, hpart, finds_of_tokenizes ?_ (hmeans.one hdescribes)⟩
  have hglob : escapedGlob (before ++ c :: behind) = '[' :: ((before ++ kept c).flatMap lowercase ++
      ']' :: (spilled c ++ ((behind.flatMap literal).flatMap lowercase ++ [']']))) := by
    simp [escapedGlob, flatMap_literal hplain, literal_of_mem_bracketed hc, hspilled, hlower]
  rw [hglob]
  exact htokens.set _ hset

/-! ## When the set stands for its characters -/

theorem splits_singleton_iff {part : Part} {text : List Char} :
    Splits [part] text ↔ part.Describes text := by
  rw [splits_cons_iff]
  constructor
  · rintro ⟨piece, rest, rfl, hpiece, hrest⟩
    rwa [splits_nil_iff.mp hrest, List.append_nil]
  · intro h
    exact ⟨text, [], (List.append_nil text).symm, h, splits_nil_iff.mpr rfl⟩

/-- What stands between brackets describes single characters. -/
theorem length_of_describes {body piece : List Char} {part : Part} (h : setOf body = some part)
    (hpiece : part.Describes piece) : piece.length = 1 := by
  have hset : ∃ negated body, part = .set negated body := by
    unfold setOf at h
    split at h
    · cases h
    · split at h
      · exact ⟨_, _, (Option.some.inj h).symm⟩
      · split at h
        · cases h
        · exact ⟨_, _, (Option.some.inj h).symm⟩
  obtain ⟨negated, body, rfl⟩ := hset
  cases hpiece <;> rfl

theorem fold_singleton (x : Char) : fold (String.singleton x) = lowercase x := by
  simp [fold]

theorem SingleCase.length_lower {cs : List Char} (h : SingleCase cs) :
    (cs.flatMap lowercase).length = cs.length := by
  induction cs with
  | nil => rfl
  | cons c cs ih =>
    obtain ⟨⟨d, hd⟩, hcs⟩ := List.forall_mem_cons.mp h
    simp [hd, ih hcs]

theorem exists_first_bracketed {cs : List Char} (h : ¬ ∀ c ∈ cs, c ∉ bracketed) :
    ∃ before c behind, cs = before ++ c :: behind ∧ (∀ d ∈ before, d ∉ bracketed) ∧
      c ∈ bracketed := by
  induction cs with
  | nil => exact absurd nofun h
  | cons first rest ih =>
    by_cases hfirst : first ∈ bracketed
    · exact ⟨[], first, rest, rfl, nofun, hfirst⟩
    · have hrest : ¬ ∀ c ∈ rest, c ∉ bracketed := fun hrest =>
        h (List.forall_mem_cons.mpr ⟨hfirst, hrest⟩)
      obtain ⟨before, c, behind, rfl, hbefore, hc⟩ := ih hrest
      exact ⟨first :: before, c, behind, rfl, List.forall_mem_cons.mpr ⟨hfirst, hbefore⟩, hc⟩

/-- A set that ended too early wants more than one character. -/
theorem finds_none_of_spilled {cs : List Char} (h : ¬ ∀ c ∈ cs, c ∉ bracketed) :
    ∃ w, parse (escapedSet cs) = .ok w ∧
      ∀ name, (fold name).length ≤ 1 → w.accepts name = false := by
  obtain ⟨before, c, behind, rfl, hbefore, hc⟩ := exists_first_bracketed h
  obtain ⟨part, hpart, w, hw, haccepts⟩ := finds_spilled hbefore hc behind
  refine ⟨w, hw, fun name hlength => ?_⟩
  rw [Bool.eq_false_iff]
  intro hname
  obtain ⟨piece, rest, htext, hpiece, hrest⟩ := splits_cons_iff.mp ((haccepts name).mp hname)
  have hone := length_of_describes hpart hpiece
  rw [splits_plain_iff.mp hrest, List.flatMap_append] at htext
  have hclose : [']'].flatMap lowercase = [']'] := by decide
  rw [htext, hclose, List.length_append, List.length_append, List.length_singleton, hone] at hlength
  omega

def Part.Selects (part : Part) (cs : List Char) : Prop :=
  ∀ x, SingleCase [x] → (part.Describes (lowercase x) ↔
    ∃ c ∈ cs, sameName (String.singleton x) (String.singleton c) = true)

theorem standsFor_iff_selects {w : Wildcard} {cs body : List Char} {part : Part}
    (hpart : setOf body = some part)
    (haccepts : ∀ name, w.accepts name = true ↔ Splits [part] (fold name)) :
    w.StandsFor cs ↔ part.Selects cs := by
  have hone (x : Char) : w.accepts (String.singleton x) = true ↔ part.Describes (lowercase x) := by
    rw [haccepts, splits_singleton_iff, fold_singleton]
  constructor
  · intro h x hx
    rw [← hone, h.one x hx]
  · intro h
    refine ⟨fun x hx => by rw [hone, h x hx], fun name hname hlength => ?_⟩
    rw [Bool.eq_false_iff]
    intro hfound
    rw [haccepts, splits_singleton_iff] at hfound
    have hfold := length_of_describes hpart hfound
    rw [fold, hname.length_lower, String.length_toList] at hfold
    exact hlength hfold

/-- Exactly where all brackets stay together and what stands between them describes them does a set
stand for its characters. -/
theorem exists_standsFor_iff {cs : List Char} (hne : cs ≠ []) :
    (∃ w, parse (escapedSet cs) = .ok w ∧ w.StandsFor cs) ↔
      (∀ c ∈ cs, c ∉ bracketed) ∧ ∃ part, setOf cs = some part ∧ part.Selects cs := by
  constructor
  · rintro ⟨w, hw, hstands⟩
    have hplain : ∀ c ∈ cs, c ∉ bracketed := by
      by_contra hspilled
      obtain ⟨before, c, behind, hcs, -, hc⟩ := exists_first_bracketed hspilled
      obtain ⟨v, hv, hnone⟩ := finds_none_of_spilled hspilled
      cases hw.symm.trans hv
      have hlower : lowercase c = [c] :=
        lowercase_metacharacter ((by decide : bracketed ⊆ metacharacters) hc)
      have hmem : c ∈ cs := hcs ▸ List.mem_append_right before List.mem_cons_self
      have hfound := (hstands.one c (by simp [SingleCase, hlower])).mpr ⟨c, hmem, sameName_refl _⟩
      rw [hnone _ (by rw [fold_singleton, hlower, List.length_singleton])] at hfound
      cases hfound
    refine ⟨hplain, ?_⟩
    cases hpart : setOf cs with
    | none => cases hw.symm.trans (refused_of_setOf hne hpart).2
    | some part =>
      obtain ⟨v, hv, haccepts⟩ := finds_unspilled hplain hpart
      cases hw.symm.trans hv
      exact ⟨part, rfl, (standsFor_iff_selects hpart haccepts).mp hstands⟩
  · rintro ⟨hplain, part, hpart, hselects⟩
    obtain ⟨w, hw, haccepts⟩ := finds_unspilled hplain hpart
    exact ⟨w, hw, (standsFor_iff_selects hpart haccepts).mpr hselects⟩

/-- Without a hyphen the characters of a set are those that stand in it. -/
theorem has_iff_mem {c : Char} {body : List Char} (h : '-' ∉ body) : Has c body ↔ c ∈ body := by
  induction body with
  | nil => exact ⟨nofun, nofun⟩
  | cons first rest ih =>
    rw [List.mem_cons, not_or] at h
    have hrange : ∀ high more, rest ≠ '-' :: high :: more := by
      rintro high more rfl
      exact h.2 List.mem_cons_self
    rw [List.mem_cons, ← ih h.2]
    constructor
    · intro hhas
      cases hhas with
      | inRange => exact absurd rfl (hrange _ _)
      | behindRange => exact absurd rfl (hrange _ _)
      | single => exact .inl rfl
      | behindSingle _ hrest => exact .inr hrest
    · rintro (rfl | hrest)
      · exact .single hrange
      · exact .behindSingle hrange hrest

theorem selects_of_plain {cs : List Char} (hcase : SingleCase cs) (hyphen : '-' ∉ cs) :
    (Part.set false cs).Selects cs := by
  rintro x hx
  obtain ⟨d, hd⟩ := hx x List.mem_cons_self
  have hsame (c : Char) (hc : c ∈ cs) :
      sameName (String.singleton x) (String.singleton c) = true ↔ d ∈ lowercase c := by
    obtain ⟨e, he⟩ := hcase c hc
    rw [sameName_iff, fold_singleton, fold_singleton, hd, he, List.mem_singleton,
      List.singleton_inj]
  have hhyphen : '-' ∉ cs.flatMap lowercase := by
    rwa [mem_flatMap_lowercase_iff (by decide)]
  have hdescribes : (Part.set false cs).Describes [d] ↔ Has d (cs.flatMap lowercase) := by
    constructor
    · rintro ⟨⟩
      assumption
    · exact .within
  rw [hd, hdescribes, has_iff_mem hhyphen, List.mem_flatMap]
  exact exists_congr fun c => and_congr_right fun hc => (hsame c hc).symm

/-- What becomes of a set whose characters are all escaped. -/
structure ReadsEscapes (cs : List Char) : Prop where
  /-- The first character with brackets of its own ends the set, and the rest has to follow. -/
  ended : ∀ before c behind, cs = before ++ c :: behind → (∀ d ∈ before, d ∉ bracketed) →
    c ∈ bracketed → ∃ part, setOf (before ++ kept c) = some part ∧
      Finds (escapedSet cs) (part :: (spilled c ++ behind ++ [']']).map .plain)
  /-- If there is none, the set is what the characters are without the backticks. -/
  dropped : (∀ c ∈ cs, c ∉ bracketed) → ∀ part, setOf cs = some part →
    Finds (escapedSet cs) [part]
  refused : setOf cs = none → parse (escapedSet cs) = .error ⟨escapedSet cs, .unclosedSet⟩
  /-- It stands for its characters where it is not ended and these are what is described then. -/
  stands_iff : (∃ w, parse (escapedSet cs) = .ok w ∧ w.StandsFor cs) ↔
    (∀ c ∈ cs, c ∉ bracketed) ∧ ∃ part, setOf cs = some part ∧ part.Selects cs
  stands : (∀ c ∈ cs, c ∉ bracketed ∧ c ≠ '!' ∧ c ≠ '-') →
    ∃ w, parse (escapedSet cs) = .ok w ∧ w.StandsFor cs

/-- A backtick in a set escapes only what has no meaning there. -/
theorem readsEscapes_escapedSet {cs : List Char} (hne : cs ≠ []) (hcase : SingleCase cs) :
    ReadsEscapes cs where
  ended before c behind hcs hbefore hc := by
    subst hcs
    exact finds_spilled hbefore hc behind
  dropped hplain part hpart := finds_unspilled hplain hpart
  refused hpart := (refused_of_setOf hne hpart).2
  stands_iff := exists_standsFor_iff hne
  stands h := by
    have hhyphen : '-' ∉ cs := fun hmem => (h '-' hmem).2.2 rfl
    have hset : setOf cs = some (.set false cs) := by
      obtain ⟨first, more, rfl⟩ := List.exists_cons_of_ne_nil hne
      exact if_pos (h first List.mem_cons_self).2.1
    exact (exists_standsFor_iff hne).mpr
      ⟨fun c hc => (h c hc).1, _, hset, selects_of_plain hcase hhyphen⟩

/-- A letter in upper case and a backtick. -/
theorem readsEscapes_escapedSet_letter :
    ['B', '\x60'] ≠ [] ∧ SingleCase ['B', '\x60'] ∧ escapedSet ['B', '\x60'] = "[\x60B\x60\x60]" ∧
    (∃ w, parse "[\x60B\x60\x60]" = .ok w ∧ w.StandsFor ['B', '\x60']) ∧
    ReadsEscapes ['B', '\x60'] := by
  have hcase : SingleCase ['B', '\x60'] := by
    intro c hc
    simp only [List.mem_cons, List.not_mem_nil, or_false] at hc
    rcases hc with rfl | rfl
    · exact ⟨'b', by decide⟩
    · exact ⟨'\x60', by decide⟩
  have hreads := readsEscapes_escapedSet (by decide) hcase
  have htext : escapedSet ['B', '\x60'] = "[\x60B\x60\x60]" := by decide +kernel
  refine ⟨by decide, hcase, htext, ?_, hreads⟩
  rw [← htext]
  exact hreads.stands (by simp [bracketed])

/-- An escaped star ends its set: the pattern finds a star with a closing bracket behind it, and
no star alone. -/
theorem not_standsFor_star :
    ((parse "[\x60*]").toOption.map fun w => (w.accepts "*", w.accepts "*]")) =
      some (false, true) ∧
    ¬ ∀ cs, cs ≠ [] → SingleCase cs → ∃ w, parse (escapedSet cs) = .ok w ∧ w.StandsFor cs := by
  refine ⟨by decide +kernel, fun h => ?_⟩
  have hcase : SingleCase ['*'] := by
    intro c hc
    rw [List.mem_singleton] at hc
    subst hc
    exact ⟨'*', by decide⟩
  have hplain := ((exists_standsFor_iff (by decide)).mp (h ['*'] (by decide) hcase)).1
  exact hplain '*' List.mem_cons_self (by decide)

end Wildcard

end DynamicMembers
