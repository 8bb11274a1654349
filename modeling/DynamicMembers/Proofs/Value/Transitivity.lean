import DynamicMembers.Proofs.Value.Equality

/-! # Equality in two steps

An integer and a floating-point number compare as floating-point numbers, and two integers compare
exactly. So two values that are equal to a third one are equal to each other unless, at some place
in them, the third has a floating-point number that stands for two integers at once (`Value.Blurs`),
and then they are not (`Value.same_trans_iff`). That takes integers of at least `2 ^ 53`.
-/
namespace DynamicMembers.Value

/-- At some place the value in the middle has a floating-point number, and the others have different
integers that become this number. -/
inductive Blurs : Value → Value → Value → Prop
  | numbers {i j : Int64} {x : Binary64} (hne : i ≠ j)
      (hi : (Binary64.ofInt i.toInt).same x = true) (hj : (Binary64.ofInt j.toInt).same x = true)
      (hlarge : 2 ^ 53 ≤ i.toInt.natAbs) (hlarge' : 2 ^ 53 ≤ j.toInt.natAbs) :
      Blurs (.int i) (.float x) (.int j)
  | item {as bs cs : List Value} {a b c : Value} (k : ℕ) (ha : as[k]? = some a)
      (hb : bs[k]? = some b) (hc : cs[k]? = some c) (h : Blurs a b c) :
      Blurs (.list as) (.list bs) (.list cs)
  | entry {as bs cs : List (String × Value)} {a b c : Value} (name : String)
      (ha : NameMap.lookup name as = some a) (hb : NameMap.lookup name bs = some b)
      (hc : NameMap.lookup name cs = some c) (h : Blurs a b c) :
      Blurs (.map as) (.map bs) (.map cs)

variable {a b c : Value} {o p q : Option Value}

theorem rel_trans_iff (hop : Option.Rel Equal o p) (hpq : Option.Rel Equal p q)
    (h : ∀ {a b c}, o = some a → p = some b → q = some c → a.Equal b → b.Equal c →
      (a.Equal c ↔ ¬ Blurs a b c)) :
    Option.Rel Equal o q ↔
      ∀ {a b c}, o = some a → p = some b → q = some c → ¬ Blurs a b c := by
  cases hop with
  | none =>
    cases hpq with
    | none => simp
  | some hab =>
    cases hpq with
    | some hbc => simp [h rfl rfl rfl hab hbc]

theorem not_blurs_list_iff {as bs cs : List Value} :
    ¬ Blurs (.list as) (.list bs) (.list cs) ↔ ∀ (k : ℕ) {a b c}, as[k]? = some a →
      bs[k]? = some b → cs[k]? = some c → ¬ Blurs a b c := by
  constructor
  · intro h k a b c ha hb hc habc
    exact h (.item k ha hb hc habc)
  · intro h habc
    cases habc with
    | item k ha hb hc habc => exact h k ha hb hc habc

theorem not_blurs_map_iff {as bs cs : List (String × Value)} :
    ¬ Blurs (.map as) (.map bs) (.map cs) ↔ ∀ (name : String) {a b c},
      NameMap.lookup name as = some a → NameMap.lookup name bs = some b →
        NameMap.lookup name cs = some c → ¬ Blurs a b c := by
  constructor
  · intro h name a b c ha hb hc habc
    exact h (.entry name ha hb hc habc)
  · intro h habc
    cases habc with
    | entry name ha hb hc habc => exact h name ha hb hc habc

/-! ## Numbers -/

def number? : Value → Option Binary64
  | int i => some (.ofInt i.toInt)
  | float x => some x
  | _ => none

theorem equal_float_iff {x : Binary64} :
    Equal (.float x) b ↔ ∃ y, b.number? = some y ∧ x.same y = true := by
  cases b <;> simp [Equal, same, number?, Binary64.same_comm]

theorem number?_of_equal {x : Binary64} (h : a.Equal b) (hx : a.number? = some x) :
    ∃ y, b.number? = some y ∧ x.same y = true := by
  cases a with
  | int i =>
    obtain rfl := Option.some.inj hx
    cases b with
    | int j =>
      obtain rfl : i = j := by simpa [Equal, same] using h
      exact ⟨_, rfl, Binary64.same_refl _⟩
    | float y => exact ⟨y, rfl, by simpa [Equal, same] using h⟩
    | _ => simp [Equal, same] at h
  | float y =>
    obtain rfl := Option.some.inj hx
    exact equal_float_iff.mp h
  | _ => cases hx

/-- Two integers and the number that both become. -/
theorem same_int_iff {i j : Int64} {x : Binary64} (hi : (Binary64.ofInt i.toInt).same x = true)
    (hj : (Binary64.ofInt j.toInt).same x = true) :
    Equal (.int i) (.int j) ↔ ¬ Blurs (.int i) (.float x) (.int j) := by
  constructor
  · intro h hblurs
    cases hblurs with
    | numbers hne _ _ _ _ => exact hne (by simpa [Equal, same] using h)
  · intro h
    by_contra hsame
    have hne : i ≠ j := by simpa [Equal, same] using hsame
    have hneq : i.toInt ≠ j.toInt := mt Int64.toInt_inj.mp hne
    have hij : (Binary64.ofInt i.toInt).same (.ofInt j.toInt) = true :=
      Binary64.same_trans hi ((Binary64.same_comm _ _).trans hj)
    have hji : (Binary64.ofInt j.toInt).same (.ofInt i.toInt) = true :=
      (Binary64.same_comm _ _).trans hij
    exact h (.numbers hne hi hj (Binary64.le_natAbs_of_same hneq hij)
      (Binary64.le_natAbs_of_same hneq.symm hji))

theorem int_trans_iff {i : Int64} (hab : Equal (.int i) b) (hbc : b.Equal c) :
    Equal (.int i) c ↔ ¬ Blurs (.int i) b c := by
  cases b with
  | int j =>
    obtain rfl : i = j := by simpa [Equal, same] using hab
    exact iff_of_true hbc (by intro h; cases h)
  | float x =>
    have hi : (Binary64.ofInt i.toInt).same x = true := by simpa [Equal, same] using hab
    cases c with
    | int j => exact same_int_iff hi (by simpa [Equal, same] using hbc)
    | float y =>
      have hxy : x.same y = true := by simpa [Equal, same] using hbc
      refine iff_of_true ?_ (by intro h; cases h)
      simpa [Equal, same] using Binary64.same_trans hi hxy
    | _ => simp [Equal, same] at hbc
  | _ => simp [Equal, same] at hab

/-! ## All values -/

/-- Two values that are equal to a third one are equal, unless that one blurs a difference. -/
theorem same_trans_iff (ha : a.WellKeyed) (hb : b.WellKeyed) (hc : c.WellKeyed) (hab : a.Equal b)
    (hbc : b.Equal c) : a.Equal c ↔ ¬ Blurs a b c := by
  induction ha generalizing b c with
  | list _ ih =>
    cases hb with
    | list hb =>
      cases hc with
      | list hc =>
        rw [same_list_iff] at hab hbc
        rw [same_list_iff, not_blurs_list_iff]
        refine forall_congr' fun k => rel_trans_iff (hab k) (hbc k) fun ha' hb' hc' => ?_
        exact ih _ (List.mem_of_getElem? ha') (hb _ (List.mem_of_getElem? hb'))
          (hc _ (List.mem_of_getElem? hc'))
      | _ => simp [Equal, same] at hbc
    | _ => simp [Equal, same] at hab
  | map hdistinct _ ih =>
    cases hb with
    | map hdistinct' hb =>
      cases hc with
      | map hdistinct'' hc =>
        rw [same_map_iff hdistinct hdistinct'] at hab
        rw [same_map_iff hdistinct' hdistinct''] at hbc
        rw [same_map_iff hdistinct hdistinct'', not_blurs_map_iff]
        refine forall_congr' fun name => rel_trans_iff (hab name) (hbc name) fun ha' hb' hc' => ?_
        obtain ⟨entry, hentry, -, rfl⟩ := hdistinct.lookup_eq_some_iff.mp ha'
        obtain ⟨entry', hentry', -, rfl⟩ := hdistinct'.lookup_eq_some_iff.mp hb'
        obtain ⟨entry'', hentry'', -, rfl⟩ := hdistinct''.lookup_eq_some_iff.mp hc'
        exact ih entry hentry (hb entry' hentry') (hc entry'' hentry'')
      | _ => simp [Equal, same] at hbc
    | _ => simp [Equal, same] at hab
  | int i => exact int_trans_iff hab hbc
  | float x =>
    obtain ⟨y, hy, hxy⟩ := equal_float_iff.mp hab
    obtain ⟨z, hz, hyz⟩ := number?_of_equal hbc hy
    refine iff_of_true ?_ (by intro h; cases h)
    exact equal_float_iff.mpr ⟨z, hz, Binary64.same_trans hxy hyz⟩
  | null | boolean | string | object | member =>
    cases hb <;> simp only [Equal, same, Bool.false_eq_true] at hab
    cases hc <;> simp only [Equal, same, Bool.false_eq_true] at hbc
    refine iff_of_true ?_ (by intro h; cases h)
    simp_all [Equal, same]

/-- Neither the depth nor the spelling of a name hides the difference. -/
theorem not_equal_of_blurred_entry :
    ¬ Equal (.map [("Ä", .list [.int 9007199254740992])])
      (.map [("Ä", .list [.int 9007199254740993])]) := by
  have hkeyed (n : Value) (hn : n.WellKeyed) (name : String) :
      (Value.map [(name, .list [n])]).WellKeyed :=
    .map (List.pairwise_singleton _ _) (by simpa using .list (by simpa using hn))
  have hblurs : Blurs (.int 9007199254740992) (.float (.ofInt 9007199254740992))
      (.int 9007199254740993) :=
    .numbers (by decide) (by decide +kernel) (by decide +kernel) (by decide) (by decide)
  have hname : sameName "ä" "Ä" = true := by decide +kernel
  refine (same_trans_iff (hkeyed _ (.int _) "Ä")
    (hkeyed (.float (.ofInt 9007199254740992)) (.float _) "ä") (hkeyed _ (.int _) "Ä")
    (by decide +kernel) (by decide +kernel)).not.mpr (not_not.mpr ?_)
  exact .entry "Ä" rfl (if_pos hname) rfl (.item 0 rfl rfl rfl hblurs)

theorem equal_not_transitive : ¬ ∀ {a b c : Value}, a.WellKeyed → b.WellKeyed → c.WellKeyed →
    a.Equal b → b.Equal c → a.Equal c := by
  intro h
  have hsame : Equal (.int 9007199254740992) (.int 9007199254740993) :=
    h (.int _) (.float (.ofInt 9007199254740992)) (.int _) (by decide +kernel) (by decide +kernel)
  exact absurd hsame (by decide +kernel)

end DynamicMembers.Value
