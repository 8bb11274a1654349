import DynamicMembers.Proofs.Text.PatternMeaning

/-! # Stars in a row

A glob reserves two stars in a row for paths. No pattern has them once it is turned into a glob: a
star is written only where the glob did not end in one, an escaped star stands in brackets, and a
lower-case form is a star only for a star. So nothing in a pattern is read as a part of a path, a
pattern is refused for a set without an end and for nothing else, and one that opens no set is not
refused (`Wildcard.avoidsPaths`).
-/
namespace DynamicMembers

theorem starPair_cons_iff {c : Char} {cs : List Char} :
    ['*', '*'] <:+: c :: cs ↔ (c = '*' ∧ cs.head? = some '*') ∨ ['*', '*'] <:+: cs := by
  have hprefix : ['*', '*'] <+: c :: cs ↔ c = '*' ∧ cs.head? = some '*' := by
    cases cs <;> simp [List.cons_prefix_cons, eq_comm]
  rw [List.infix_cons_iff, hprefix]

/-! ## Globs without two stars in a row -/

namespace Glob

theorem splitSet_suffix {cs body behind : List Char} (h : splitSet cs = some (body, behind)) :
    behind <:+ cs := by
  cases cs with
  | nil => cases h
  | cons first rest =>
    rw [splitSet] at h
    split at h
    next => cases h
    next closing _ hdrop =>
      cases h
      have hrest : closing :: behind <:+ rest := hdrop ▸ List.dropWhile_suffix _
      exact ((List.suffix_cons closing _).trans hrest).trans (List.suffix_cons first _)

theorem readSet_suffix {cs behind : List Char} {set : CharSet}
    (h : readSet cs = some (set, behind)) : behind <:+ cs := by
  unfold readSet at h
  split at h
  · obtain ⟨⟨body, later⟩, hsplit, heq⟩ := Option.map_eq_some_iff.mp h
    cases heq
    exact (splitSet_suffix hsplit).trans (List.suffix_cons _ _)
  · obtain ⟨⟨body, later⟩, hsplit, heq⟩ := Option.map_eq_some_iff.mp h
    cases heq
    exact splitSet_suffix hsplit

/-- What is read has no step for the components of a path, or only a set is at fault. -/
inductive Pathless : Except Fault (List Token) → Prop
  | read {tokens : List Token} (h : .components ∉ tokens) : Pathless (.ok tokens)
  | unclosed : Pathless (.error .unclosedSet)

theorem Pathless.cons {read : Except Fault (List Token)} {t : Token} (h : Pathless read)
    (ht : .components ≠ t) : Pathless ((t :: ·) <$> read) := by
  cases h with
  | read h => exact .read (List.not_mem_cons_of_ne_of_not_mem ht h)
  | unclosed => exact .unclosed

/-- What stands behind a set is an end of the text, so it has no two stars in a row either. -/
theorem pathless_readTokens {before : Option Char} {fuel : ℕ} {cs : List Char}
    (hstars : ¬ ['*', '*'] <:+: cs) : Pathless (readTokens before fuel cs) := by
  have hrest {c : Char} {rest : List Char} (hcs : ¬ ['*', '*'] <:+: c :: rest) :
      ¬ ['*', '*'] <:+: rest := fun hpair => hcs (starPair_cons_iff.mpr (.inr hpair))
  fun_induction readTokens before fuel cs with
  | case1 | case2 => exact .read List.not_mem_nil
  | case3 before fuel rest ih => exact (ih (hrest hstars)).cons (by simp)
  | case4 | case5 | case6 | case7 | case8 =>
    -- whatever stands around two stars, they are at the front here
    exact absurd (starPair_cons_iff.mpr (.inl ⟨rfl, rfl⟩)) hstars
  | case9 before fuel rest _ ih => exact (ih (hrest hstars)).cons (by simp)
  | case10 => exact .unclosed
  | case11 before fuel rest set behind hset ih =>
    have hbehind : behind <:+: rest := (readSet_suffix hset).isInfix
    exact (ih fun hpair => hrest hstars (hpair.trans hbehind)).cons (by simp)
  | case12 before fuel c rest _ _ _ _ ih => exact (ih (hrest hstars)).cons (by simp)

end Glob

namespace Wildcard

/-! ## The glob of a pattern has no two stars in a row -/

theorem not_starPair_literal_append {c : Char} {rest : List Char} (h : ¬ ['*', '*'] <:+: rest) :
    ¬ ['*', '*'] <:+: literal c ++ rest := by
  unfold literal
  split
  · simp [starPair_cons_iff, h]
  next hc =>
    have hstar : c ≠ '*' := by
      rintro rfl
      exact hc rfl
    simp [starPair_cons_iff, h, hstar]

/-- By induction on the pattern: after a star the glob goes on with another character
(`head?_toGlob_ne`), whatever escapes stand between. -/
theorem not_starPair_toGlob (afterStar : Bool) (cs : List Char) :
    ¬ ['*', '*'] <:+: toGlob afterStar cs := by
  induction cs using escapeInduction generalizing afterStar with
  | nil => simp [toGlob]
  | lone => simp [toGlob]
  | escaped c rest ih => exact not_starPair_literal_append (ih false)
  | ordinary c rest hc ih =>
    by_cases hstar : c = '*'
    · subst hstar
      cases afterStar with
      | false =>
        show ¬ ['*', '*'] <:+: '*' :: toGlob true rest
        rw [starPair_cons_iff, not_or]
        exact ⟨fun h => head?_toGlob_ne rest h.2, ih true⟩
      | true => exact ih true
    · rw [toGlob_ordinary hc afterStar hstar, starPair_cons_iff, not_or]
      exact ⟨fun h => hstar h.1, ih false⟩

theorem not_starPair_lowered (afterStar : Bool) (cs : List Char) :
    ¬ ['*', '*'] <:+: (toGlob afterStar cs).flatMap lowercase := by
  rw [← toGlob_flatMap_lowercase]
  exact not_starPair_toGlob afterStar _

/-! ## Patterns that open no set -/

/-- Is there an opening bracket that no backtick escapes? -/
def opensSet : List Char → Bool
  | [] => false
  | '\x60' :: _ :: rest => opensSet rest
  | c :: rest => c == '[' || opensSet rest

theorem opensSet_ordinary {c : Char} (hc : c ≠ '\x60') (rest : List Char) :
    opensSet (c :: rest) = (c == '[' || opensSet rest) := by
  rw [opensSet]
  exact fun _ _ h => absurd h hc

theorem exists_reads {cs : List Char} (h : opensSet cs = false) : ∃ parts, Reads cs parts := by
  induction cs using escapeInduction with
  | nil => exact ⟨[], .nil⟩
  | lone => exact ⟨[], .lone⟩
  | escaped c rest ih =>
    obtain ⟨parts, hparts⟩ := ih h
    exact ⟨_, .escaped c hparts⟩
  | ordinary c rest hc ih =>
    rw [opensSet_ordinary hc, Bool.or_eq_false_iff, beq_eq_false_iff_ne] at h
    obtain ⟨parts, hparts⟩ := ih h.2
    by_cases hone : c = '?'
    · subst hone
      exact ⟨_, .anyOne hparts⟩
    by_cases hrun : c = '*'
    · subst hrun
      exact ⟨_, .anyRun hparts⟩
    exact ⟨_, .ordinary (by simp [hc, hone, hrun, h.1]) hparts⟩

variable {pattern : String}

theorem parse_cases (pattern : String) :
    (∃ w, parse pattern = .ok w ∧ ∀ tokens, w.target = .glob tokens →
      Glob.parse ((toGlob false pattern.toList).flatMap lowercase) = .ok tokens) ∨
    ∃ fault, parse pattern = .error ⟨pattern, fault⟩ ∧
      Glob.parse ((toGlob false pattern.toList).flatMap lowercase) = .error fault := by
  dsimp only [parse]
  split
  · exact .inl ⟨_, rfl, by simp⟩
  · split
    · exact .inl ⟨_, rfl, by simp⟩
    · cases Glob.parse ((toGlob false pattern.toList).flatMap lowercase) with
      | ok tokens => exact .inl ⟨_, rfl, by simp⟩
      | error fault => exact .inr ⟨fault, rfl, rfl⟩

theorem exists_parse_of_reads {parts : List Part} (h : Reads pattern.toList parts) :
    ∃ w, parse pattern = .ok w := by
  rcases parse_cases pattern with ⟨w, hw, -⟩ | ⟨fault, -, hglob⟩
  · exact ⟨w, hw⟩
  · obtain ⟨tokens, htokens, -⟩ := h.translates false
    cases hglob.symm.trans htokens.parse

theorem pathless_parse (pattern : String) :
    Glob.Pathless (Glob.parse ((toGlob false pattern.toList).flatMap lowercase)) :=
  Glob.pathless_readTokens (not_starPair_lowered false pattern.toList)

theorem components_notMem_of_parse {w : Wildcard} {tokens : List Glob.Token}
    (h : parse pattern = .ok w) (htarget : w.target = .glob tokens) : .components ∉ tokens := by
  rcases parse_cases pattern with ⟨v, hv, hglob⟩ | ⟨fault, hfault, -⟩
  · cases hv.symm.trans h
    have hpathless := pathless_parse pattern
    rw [hglob tokens htarget] at hpathless
    cases hpathless with
    | read hnone => exact hnone
  · cases hfault.symm.trans h

theorem eq_unclosedSet_of_parse {e : WildcardError} (h : parse pattern = .error e) :
    e = ⟨pattern, .unclosedSet⟩ := by
  rcases parse_cases pattern with ⟨v, hv, -⟩ | ⟨fault, hfault, hglob⟩
  · cases hv.symm.trans h
  · cases hfault.symm.trans h
    have hpathless := pathless_parse pattern
    rw [hglob] at hpathless
    cases hpathless
    rfl

/-- Nothing in a pattern is taken for a part of a path, and only a set can make it no pattern. -/
structure AvoidsPaths (pattern : String) : Prop where
  starsApart : ¬ ['*', '*'] <:+: (toGlob false pattern.toList).flatMap lowercase
  pathless : ∀ w tokens, parse pattern = .ok w → w.target = .glob tokens → .components ∉ tokens
  refused : ∀ e, parse pattern = .error e →
    e = ⟨pattern, .unclosedSet⟩ ∧ e.reason = "invalid range pattern"
  accepted : opensSet pattern.toList = false → ∃ w, parse pattern = .ok w

theorem avoidsPaths (pattern : String) : AvoidsPaths pattern where
  starsApart := not_starPair_lowered false pattern.toList
  pathless _ _ := components_notMem_of_parse
  refused e h := by
    obtain rfl := eq_unclosedSet_of_parse h
    exact ⟨rfl, rfl⟩
  accepted h := by
    obtain ⟨parts, hparts⟩ := exists_reads h
    exact exists_parse_of_reads hparts

/-- Stars with an escaped one and escapes between them, and brackets that open no set, are accepted;
a set without an end is refused. -/
theorem avoidsPaths_mixed :
    (∃ w, parse "a**\x60**\x60b*]\x60[*\x60" = .ok w) ∧
    parse "Foo[" = .error ⟨"Foo[", .unclosedSet⟩ ∧
    (⟨"Foo[", .unclosedSet⟩ : WildcardError).reason = "invalid range pattern" := by
  have hopen : opensSet "a**\x60**\x60b*]\x60[*\x60".toList = false := by decide +kernel
  have hrefused : parse "Foo[" = .error ⟨"Foo[", .unclosedSet⟩ := by decide +kernel
  exact ⟨(avoidsPaths _).accepted hopen, hrefused, ((avoidsPaths _).refused _ hrefused).2⟩

end Wildcard

end DynamicMembers
