import DynamicMembers.Proofs.Store.StoredLists

/-! # Searches of a list

A search for one name looks the name up among the keys; every other search scans the members.
A key may keep the spelling of a member that was replaced, while a scan reads the names the
members have now. The two find the same because a list has each member under its own name and
each name once (`MemberList.Refines.matching_eq_scan`), so a caller can think of every search
as a scan (`ListChange.scans_when_searched`).
-/
namespace DynamicMembers

/-- For a pattern that looks for one name, to accept a name is to have the same name. -/
theorem Wildcard.accepts_of_exactName {pattern : Wildcard} {exact : String}
    (h : pattern.exactName = some exact) (name : String) :
    pattern.accepts name = sameName name exact := by
  rw [Wildcard.exactName] at h
  split at h
  · rename_i hexact
    cases h
    rw [Wildcard.accepts, hexact, sameName_comm]
  · cases h

namespace PlainList

/-- What a scan of the members finds: in their order, those whose names the pattern accepts and
that have the types and the flags asked for. -/
def scan (plain : List Member) (pattern : Wildcard) (types : TypeMask) (options : MatchOptions) :
    List Member :=
  plain.filter fun m => pattern.accepts m.name && m.passes types options

/-- Where each name stands once, a name selects the one member that it names. -/
theorem filter_sameName {plain : List Member}
    (h : plain.Pairwise fun m other => sameName m.name other.name = false) (name : String) :
    (plain.filter fun m => sameName m.name name) = (named? plain name).toList := by
  induction plain with
  | nil => rfl
  | cons first rest ih =>
    obtain ⟨hfirst, hrest⟩ := List.pairwise_cons.mp h
    by_cases hname : sameName first.name name = true
    · -- the first member has the name, so nothing behind it does
      have hnone : (rest.filter fun m => sameName m.name name) = [] := by
        refine List.filter_eq_nil_iff.mpr fun m hm => ?_
        rw [← sameName_congr_right hname, sameName_comm, hfirst m hm]
        exact Bool.false_ne_true
      simp [named?, hname, hnone]
    · simpa [named?, hname] using ih hrest

end PlainList

namespace MemberList

variable {l : MemberList} {plain : List Member}

/-- A search finds what a scan of the plain list finds, whether it looks a name up or not. -/
theorem Refines.matching_eq_scan (h : l.Refines plain) (pattern : Wildcard) (types : TypeMask)
    (options : MatchOptions) :
    l.matching pattern types options = PlainList.scan plain pattern types options := by
  cases hexact : pattern.exactName with
  | none => rw [matching, hexact, h.members, PlainList.scan]
  | some exact =>
    have hnamed := PlainList.filter_sameName h.exact.distinct exact
    calc l.matching pattern types options
        = ((PlainList.named? plain exact).filter (·.passes types options)).toList := by
          rw [matching, hexact, ← h.exact.find? exact]
      _ = (PlainList.named? plain exact).toList.filter (·.passes types options) :=
          Option.toList_filter
      _ = (plain.filter fun m => sameName m.name exact).filter (·.passes types options) := by
          rw [hnamed]
      _ = PlainList.scan plain pattern types options := by
          rw [List.filter_filter, PlainList.scan]
          simp only [Wildcard.accepts_of_exactName hexact, Bool.and_comm]

end MemberList

namespace ListChange
open Store

/-- A list that was made by additions, removals and copies is searched as if the plain list that
they make were scanned. So is every list of a reachable store. -/
theorem scans_when_searched :
    (∀ (changes : List ListChange) (s : Store), ∃ plain,
      AllPlainly changes [] ((make changes).run s).1.2 plain ∧
        ((s.after (make changes)).list ((make changes).run s).1.1).members = plain ∧
        ∀ (pattern : Wildcard) (types : TypeMask) (options : MatchOptions),
          ((s.after (make changes)).list ((make changes).run s).1.1).matching pattern types
            options = PlainList.scan plain pattern types options) ∧
    ∀ s : Store, s.Reachable → ∀ (l : ListId) (pattern : Wildcard) (types : TypeMask)
      (options : MatchOptions), (s.list l).matching pattern types options =
        PlainList.scan (s.list l).members pattern types options := by
  constructor
  · intro changes s
    have hempty : (s.after (addList .empty)).Holds ⟨s.lists.size⟩ [] := holds_addList .empty
    obtain ⟨plain, hanswers, hholds⟩ := holds_applyAll hempty changes
    exact ⟨plain, hanswers, hholds.2.members, hholds.2.matching_eq_scan⟩
  · intro s hs l
    exact (hs.forall_list MemberList.lasts_refines l).matching_eq_scan

/-- The pattern looks for one name, in a spelling that neither the key nor the member has. -/
theorem scans_when_searched_respelling :
    Wildcard.parse "siz`e" = .ok ⟨"siz`e", .exact "size"⟩ ∧
    (((Store.empty.after (make respelling)).list ⟨1⟩).matching ⟨"siz`e", .exact "size"⟩ .all
      .visible).map (·.name) = ["SIZE"] ∧
    (∃ plain, AllPlainly respelling [] ((make respelling).run Store.empty).1.2 plain ∧
      ((Store.empty.after (make respelling)).list
        ((make respelling).run Store.empty).1.1).members = plain ∧
      ∀ (pattern : Wildcard) (types : TypeMask) (options : MatchOptions),
        ((Store.empty.after (make respelling)).list
          ((make respelling).run Store.empty).1.1).matching pattern types options =
            PlainList.scan plain pattern types options) ∧
    View.crowded.Reachable ∧
    (View.crowded.list ⟨0⟩).matching ⟨"size", .exact "size"⟩ .all .visible =
      PlainList.scan (View.crowded.list ⟨0⟩).members ⟨"size", .exact "size"⟩ .all .visible :=
  ⟨by decide +kernel, by decide +kernel, scans_when_searched.1 respelling Store.empty,
    View.reachable_crowded, scans_when_searched.2 _ View.reachable_crowded ⟨0⟩ _ _ _⟩

end ListChange

end DynamicMembers
