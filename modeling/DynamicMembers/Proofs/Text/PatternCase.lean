import DynamicMembers.Text.Wildcard

/-! # Patterns without regard to case

The characters that mean something in a pattern have no case, and no other character has
one of them in its lower-case form. So a pattern can be taken apart before or after it is
lowered: escapes, wildcards and sets stand in the same places, though a character may
have become two. Patterns that are the same without regard to case find the same names
(`Wildcard.blindToCase`).
-/
namespace DynamicMembers

def metacharacters : List Char := ['\x60', '*', '?', '[', ']', '!', '-']

/-! ## Lower case keeps the characters with a meaning apart -/

theorem ofNat_notMem_metacharacters {n : Nat} (h : 128 ≤ n) : Char.ofNat n ∉ metacharacters := by
  by_cases hn : n.isValidChar
  · have hcode : (Char.ofNat n).toNat = n := by
      rw [Char.ofNat, dif_pos hn]
      rfl
    intro hmem
    have hascii : (metacharacters.all fun c => decide (c.toNat < 128)) = true := by decide
    have hlt := of_decide_eq_true (List.all_eq_true.mp hascii _ hmem)
    omega
  · rw [Char.ofNat, dif_neg hn]
    decide

/-- The lower-case forms in a run of upper-case characters have no meaning in a pattern: all but
one of them are beyond ASCII, and that one is a letter. -/
theorem CaseRun.notMem_metacharacters {r : CaseRun} (hr : r ∈ caseRuns) {code : Nat}
    (h : r.holds code = true) : Char.ofNat (code + r.shift).toNat ∉ metacharacters := by
  have hfar : ∀ r ∈ caseRuns, 128 ≤ r.first + r.shift ∨
      r.first = r.last ∧ (r.first + r.shift).toNat = 'k'.toNat := by
    decide +kernel
  simp only [CaseRun.holds, Bool.and_eq_true, decide_eq_true_eq] at h
  rcases hfar r hr with hfar | ⟨hone, hletter⟩
  · exact ofNat_notMem_metacharacters (by omega)
  · obtain rfl : code = r.first := by omega
    rw [hletter]
    decide

theorem toLower_ofNat_metacharacters : ∀ n < 128,
    (Char.ofNat n).toLower ∈ metacharacters → (Char.ofNat n).toLower = Char.ofNat n := by
  decide

/-- No other character has one with a meaning in its lower-case form. -/
theorem eq_of_mem_lowercase {c d : Char} (hd : d ∈ metacharacters) (h : d ∈ lowercase c) :
    c = d := by
  unfold lowercase at h
  split at h
  next hascii =>
    have hlower := toLower_ofNat_metacharacters c.toNat hascii
    rw [Char.ofNat_toNat] at hlower
    rw [List.mem_singleton] at h
    subst h
    exact (hlower hd).symm
  next =>
    split at h
    next =>
      have hdotted : (['i', Char.ofNat 0x307].all fun e => decide (e ∉ metacharacters)) = true := by
        decide
      exact absurd hd (of_decide_eq_true (List.all_eq_true.mp hdotted d h))
    next =>
      split at h
      next r hfind =>
        split at h
        next hholds =>
          rw [List.mem_singleton] at h
          subst h
          exact absurd hd (CaseRun.notMem_metacharacters (List.mem_of_find?_eq_some hfind) hholds)
        next => exact (List.mem_singleton.mp h).symm
      next => exact (List.mem_singleton.mp h).symm

theorem lowercase_ne_nil (c : Char) : lowercase c ≠ [] := by
  unfold lowercase
  split
  · exact List.cons_ne_nil _ _
  · split
    · exact List.cons_ne_nil _ _
    · split
      · split <;> exact List.cons_ne_nil _ _
      · exact List.cons_ne_nil _ _

theorem lowercase_metacharacter {c : Char} (h : c ∈ metacharacters) : lowercase c = [c] := by
  have hall : (metacharacters.all fun c => lowercase c == [c]) = true := by decide
  exact eq_of_beq (List.all_eq_true.mp hall c h)

/-- A character with a meaning is its own lower-case form, and that of any other one has none. -/
theorem lowercase_cases (c : Char) : (c ∈ metacharacters ∧ lowercase c = [c]) ∨
    (c ∉ metacharacters ∧ ∃ first more, lowercase c = first :: more ∧
      first ∉ metacharacters ∧ ∀ d ∈ more, d ∉ metacharacters) := by
  by_cases hc : c ∈ metacharacters
  · exact .inl ⟨hc, lowercase_metacharacter hc⟩
  · obtain ⟨first, more, hlower⟩ := List.exists_cons_of_ne_nil (lowercase_ne_nil c)
    have hplain : ∀ d ∈ first :: more, d ∉ metacharacters := fun d hd hmeta =>
      hc (eq_of_mem_lowercase hmeta (hlower ▸ hd) ▸ hmeta)
    exact .inr ⟨hc, first, more, hlower, hplain first List.mem_cons_self,
      fun d hd => hplain d (List.mem_cons_of_mem _ hd)⟩

/-- A lowered text has a character with a meaning exactly where the text has it. -/
theorem mem_flatMap_lowercase_iff {c : Char} (hc : c ∈ metacharacters) (cs : List Char) :
    c ∈ cs.flatMap lowercase ↔ c ∈ cs := by
  rw [List.mem_flatMap]
  constructor
  · rintro ⟨d, hd, hmem⟩
    rwa [← eq_of_mem_lowercase hc hmem]
  · intro h
    exact ⟨c, h, by rw [lowercase_metacharacter hc]; exact List.mem_singleton_self c⟩

namespace Wildcard

/-! ## Escapes -/

/-- A backtick takes the character behind it along. -/
theorem escapeInduction {motive : List Char → Prop} (nil : motive []) (lone : motive ['\x60'])
    (escaped : ∀ c rest, motive rest → motive ('\x60' :: c :: rest))
    (ordinary : ∀ c rest, c ≠ '\x60' → motive rest → motive (c :: rest)) (cs : List Char) :
    motive cs := by
  induction cs using unescape.induct with
  | case1 => exact nil
  | case2 => exact lone
  | case3 c rest ih => exact escaped c rest ih
  | case4 c rest hlone hescape ih =>
    refine ordinary c rest ?_ ih
    rintro rfl
    cases rest with
    | nil => exact hlone rfl rfl
    | cons d rest => exact hescape d rest rfl rfl

section

variable {c : Char} {rest : List Char} (hc : c ≠ '\x60')
include hc

theorem hasWildcards_ordinary :
    hasWildcards (c :: rest) = (c == '*' || c == '?' || c == '[' || hasWildcards rest) := by
  rw [hasWildcards]
  exact fun _ _ h => absurd h hc

theorem unescape_ordinary : unescape (c :: rest) = c :: unescape rest := by
  rw [unescape]
  · exact fun h => absurd h hc
  · exact fun _ _ h => absurd h hc

theorem toGlob_ordinary (afterStar : Bool) (hstar : c ≠ '*') :
    toGlob afterStar (c :: rest) = c :: toGlob false rest := by
  rw [toGlob]
  · exact fun h => absurd h hc
  · exact fun _ _ h => absurd h hc
  · exact hstar

end

/-! ## Patterns are taken apart before or after they are lowered -/

def Plain (cs : List Char) : Prop := ∀ c ∈ cs, c ∉ metacharacters

section

variable {c : Char} {cs rest : List Char}

theorem ne_of_notMem (h : c ∉ metacharacters) {d : Char} (hd : d ∈ metacharacters) : c ≠ d :=
  fun hcd => h (hcd ▸ hd)

theorem literal_of_notMem (h : c ∉ metacharacters) : literal c = [c] := by
  simp only [metacharacters, List.mem_cons, List.not_mem_nil, or_false, not_or] at h
  simp [literal, h]

theorem Plain.hasWildcards_append (h : Plain cs) :
    hasWildcards (cs ++ rest) = hasWildcards rest := by
  induction cs with
  | nil => rfl
  | cons c cs ih =>
    obtain ⟨hc, hcs⟩ := List.forall_mem_cons.mp h
    rw [List.cons_append, hasWildcards_ordinary (ne_of_notMem hc (by decide)), ih hcs]
    simp only [metacharacters, List.mem_cons, List.not_mem_nil, or_false, not_or] at hc
    simp [hc]

theorem Plain.unescape_append (h : Plain cs) : unescape (cs ++ rest) = cs ++ unescape rest := by
  induction cs with
  | nil => rfl
  | cons c cs ih =>
    obtain ⟨hc, hcs⟩ := List.forall_mem_cons.mp h
    rw [List.cons_append, unescape_ordinary (ne_of_notMem hc (by decide)), ih hcs,
      List.cons_append]

theorem Plain.toGlob_append (h : Plain cs) :
    toGlob false (cs ++ rest) = cs ++ toGlob false rest := by
  induction cs with
  | nil => rfl
  | cons c cs ih =>
    obtain ⟨hc, hcs⟩ := List.forall_mem_cons.mp h
    rw [List.cons_append, toGlob_ordinary (ne_of_notMem hc (by decide)) false
      (ne_of_notMem hc (by decide)), ih hcs, List.cons_append]

end

theorem lowercase_backtick : lowercase '\x60' = ['\x60'] := by decide

/-- Each wildcard is found in the lowered pattern as well, and no others. -/
theorem hasWildcards_flatMap_lowercase (cs : List Char) :
    hasWildcards (cs.flatMap lowercase) = hasWildcards cs := by
  induction cs using escapeInduction with
  | nil => rfl
  | lone => decide
  | escaped c rest ih =>
    rw [List.flatMap_cons, List.flatMap_cons, lowercase_backtick, hasWildcards, ← ih]
    rcases lowercase_cases c with ⟨-, hlower⟩ | ⟨-, first, more, hlower, -, hmore⟩ <;> rw [hlower]
    · rfl
    · exact Plain.hasWildcards_append hmore
  | ordinary c rest hc ih =>
    rw [List.flatMap_cons, hasWildcards_ordinary hc, ← ih]
    rcases lowercase_cases c with ⟨-, hlower⟩ | ⟨hplain, first, more, hlower, hfirst, hmore⟩ <;>
      rw [hlower]
    · rw [List.singleton_append, hasWildcards_ordinary hc]
    · rw [Plain.hasWildcards_append (List.forall_mem_cons.mpr ⟨hfirst, hmore⟩)]
      simp only [metacharacters, List.mem_cons, List.not_mem_nil, or_false, not_or] at hplain
      simp [hplain]

theorem unescape_flatMap_lowercase (cs : List Char) :
    unescape (cs.flatMap lowercase) = (unescape cs).flatMap lowercase := by
  induction cs using escapeInduction with
  | nil => rfl
  | lone => decide
  | escaped c rest ih =>
    rw [List.flatMap_cons, List.flatMap_cons, lowercase_backtick, unescape, List.flatMap_cons, ← ih]
    rcases lowercase_cases c with ⟨-, hlower⟩ | ⟨-, first, more, hlower, -, hmore⟩ <;> rw [hlower]
    · rfl
    · exact congrArg (first :: ·) (Plain.unescape_append hmore)
  | ordinary c rest hc ih =>
    rw [List.flatMap_cons, unescape_ordinary hc, List.flatMap_cons, ← ih]
    rcases lowercase_cases c with ⟨-, hlower⟩ | ⟨-, first, more, hlower, hfirst, hmore⟩ <;>
      rw [hlower]
    · exact unescape_ordinary hc
    · exact Plain.unescape_append (List.forall_mem_cons.mpr ⟨hfirst, hmore⟩)

theorem flatMap_lowercase_literal (c : Char) :
    (literal c).flatMap lowercase = if c ∈ metacharacters then literal c else lowercase c := by
  split
  next hc =>
    have hall :
        (metacharacters.all fun c => (literal c).flatMap lowercase == literal c) = true := by
      decide
    exact eq_of_beq (List.all_eq_true.mp hall c hc)
  next hc => rw [literal_of_notMem hc, List.flatMap_singleton]

theorem toGlob_flatMap_lowercase (afterStar : Bool) (cs : List Char) :
    toGlob afterStar (cs.flatMap lowercase) = (toGlob afterStar cs).flatMap lowercase := by
  induction cs using escapeInduction generalizing afterStar with
  | nil => rfl
  | lone => rw [show (['\x60'].flatMap lowercase) = ['\x60'] by decide]; rfl
  | escaped c rest ih =>
    rw [List.flatMap_cons, List.flatMap_cons, lowercase_backtick, toGlob, List.flatMap_append,
      flatMap_lowercase_literal, ← ih]
    rcases lowercase_cases c with ⟨hc, hlower⟩ | ⟨hc, first, more, hlower, hfirst, hmore⟩ <;>
      rw [hlower]
    · rw [if_pos hc]
      rfl
    · rw [if_neg hc]
      show literal first ++ toGlob false (more ++ rest.flatMap lowercase) = _
      rw [literal_of_notMem hfirst, Plain.toGlob_append hmore]
      rfl
  | ordinary c rest hc ih =>
    rw [List.flatMap_cons]
    by_cases hstar : c = '*'
    · subst hstar
      cases afterStar
      · exact congrArg ('*' :: ·) (ih true)
      · exact ih true
    rw [toGlob_ordinary hc _ hstar, List.flatMap_cons, ← ih]
    rcases lowercase_cases c with ⟨-, hlower⟩ | ⟨-, first, more, hlower, hfirst, hmore⟩ <;>
      rw [hlower]
    · exact toGlob_ordinary hc _ hstar
    · rw [List.cons_append, toGlob_ordinary (ne_of_notMem hfirst (by decide)) _
        (ne_of_notMem hfirst (by decide)), Plain.toGlob_append hmore]
      rfl

/-! ## Patterns that are the same without regard to case -/

/-- Which lowered names a lowered pattern describes. -/
def lowered (cs : List Char) : Except Glob.Fault (List Char → Bool) :=
  if cs = ['*'] then .ok fun _ => true
  else if hasWildcards cs then (Glob.parse (toGlob false cs)).map Glob.accepts
  else .ok fun name => unescape cs == name

/-- The patterns find the same names, whatever the case of the names. -/
structure SameMatches (p q : String) : Prop where
  wildcards : hasWildcards p.toList = hasWildcards q.toList
  read : (∃ v, parse p = .ok v) ↔ ∃ w, parse q = .ok w
  /-- If one of them is no pattern, the other one is none, for the same fault. -/
  faults : ∀ fault, parse p = .error ⟨p, fault⟩ ↔ parse q = .error ⟨q, fault⟩
  accepts : ∀ v w, parse p = .ok v → parse q = .ok w → ∀ a b, sameName a b = true →
    v.accepts a = w.accepts b

variable {p q : String}

theorem eq_star_iff : p = "*" ↔ fold p = ['*'] := by
  refine ⟨fun h => by rw [h]; decide, fun h => ?_⟩
  have hfirst : p.toList = ['*'] := by
    cases hp : p.toList with
    | nil => simp [fold, hp] at h
    | cons c rest =>
      rw [fold, hp, List.flatMap_cons] at h
      obtain ⟨first, more, hlower⟩ := List.exists_cons_of_ne_nil (lowercase_ne_nil c)
      rw [hlower, List.cons_append, List.cons.injEq, List.append_eq_nil_iff] at h
      obtain ⟨rfl, rfl, hrest⟩ := h
      obtain rfl : c = '*' := eq_of_mem_lowercase (by decide) (hlower ▸ List.mem_singleton_self '*')
      cases rest with
      | nil => rfl
      | cons d rest =>
        rw [List.flatMap_cons, List.append_eq_nil_iff] at hrest
        exact absurd hrest.1 (lowercase_ne_nil d)
  rw [← String.ofList_toList (s := p), hfirst]

/-- What is read from a pattern is said by the lowered pattern. -/
theorem parse_eq_lowered (p : String) : (∃ f w, lowered (fold p) = .ok f ∧ parse p = .ok w ∧
      ∀ name, w.accepts name = f (fold name)) ∨
    ∃ fault, lowered (fold p) = .error fault ∧ parse p = .error ⟨p, fault⟩ := by
  have hwildcards : hasWildcards (fold p) = hasWildcards p.toList :=
    hasWildcards_flatMap_lowercase _
  have hglob : toGlob false (fold p) = (toGlob false p.toList).flatMap lowercase :=
    toGlob_flatMap_lowercase _ _
  have hname : unescape (fold p) = fold (String.ofList (unescape p.toList)) := by
    rw [fold, fold, unescape_flatMap_lowercase, String.toList_ofList]
  rw [lowered, parse, hwildcards, hglob]
  by_cases hstar : p = "*"
  · rw [if_pos (eq_star_iff.mp hstar), if_pos (beq_iff_eq.mpr hstar)]
    exact .inl ⟨_, _, rfl, rfl, fun _ => rfl⟩
  rw [if_neg (fun h => hstar (eq_star_iff.mpr h)), if_neg (fun h => hstar (beq_iff_eq.mp h))]
  by_cases hw : hasWildcards p.toList = true
  · rw [if_pos hw, if_neg (by simp [hw])]
    cases Glob.parse ((toGlob false p.toList).flatMap lowercase) with
    | ok tokens => exact .inl ⟨_, _, rfl, rfl, fun _ => rfl⟩
    | error fault => exact .inr ⟨fault, rfl, rfl⟩
  · rw [if_neg hw, if_pos (by simp [hw])]
    refine .inl ⟨_, _, rfl, rfl, fun name => ?_⟩
    rw [hname, accepts, Bool.eq_iff_iff, sameName_iff, beq_iff_eq]

theorem blindToCase (h : foldCase p = foldCase q) : SameMatches p q := by
  have hfold : fold p = fold q := sameName_iff.mp (foldCase_eq_iff.mp h)
  have hwildcards : hasWildcards p.toList = hasWildcards q.toList := by
    rw [← hasWildcards_flatMap_lowercase, ← hasWildcards_flatMap_lowercase q.toList]
    exact congrArg hasWildcards hfold
  have hp := parse_eq_lowered p
  rw [hfold] at hp
  rcases hp with ⟨f, v, hf, hv, hacceptsV⟩ | ⟨fault, hfault, hp⟩ <;>
    rcases parse_eq_lowered q with ⟨g, w, hg, hw, hacceptsW⟩ | ⟨fault', hfault', hq⟩
  · cases hf.symm.trans hg
    refine ⟨hwildcards, by simp [hv, hw], by simp [hv, hw], ?_⟩
    rintro v w hv' hw' a b hab
    cases hv.symm.trans hv'
    cases hw.symm.trans hw'
    rw [hacceptsV, hacceptsW, sameName_iff.mp hab]
  · cases hf.symm.trans hfault'
  · cases hfault.symm.trans hg
  · cases hfault.symm.trans hfault'
    refine ⟨hwildcards, by simp [hp, hq], by simp [hp, hq], ?_⟩
    rintro v w hv
    cases hp.symm.trans hv

/-- An escaped character whose lower-case form is two characters, a set with another one, and a
range. -/
theorem blindToCase_dotted :
    foldCase "\x60\u0130[\u0130!B-D]*" = foldCase "\x60i\u0307[i\u0307!b-d]*" ∧
    SameMatches "\x60\u0130[\u0130!B-D]*" "\x60i\u0307[i\u0307!b-d]*" ∧
    ((parse "\x60\u0130[\u0130!B-D]*").toOption.map (·.accepts "\u0130C")) = some true := by
  have hsame : foldCase "\x60\u0130[\u0130!B-D]*" = foldCase "\x60i\u0307[i\u0307!b-d]*" := by
    decide +kernel
  exact ⟨hsame, blindToCase hsame, by decide +kernel⟩

end Wildcard

end DynamicMembers
