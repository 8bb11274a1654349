import DynamicMembers.Proofs.Store.Circles
import DynamicMembers.Proofs.World.WrittenValues

/-! # Texts of what can be reached

Every write puts some value into some cell, and nothing looks at where the value leads. So a value
can be made that contains itself, and then there is no text of it: writing it never comes to an end,
whether it is to be shown, is converted to a text, or is in the way of a conversion that fails. All
other values have a text (`Store.rendersExactly`).
-/
namespace DynamicMembers

namespace Store

/-- A value has a text, and with it every answer that shows it, exactly if it does not lead into a
circle. -/
structure RendersExactly (adapter : Adapter) (s : Store) (v : Value) : Prop where
  text_iff : (∃ text, s.text? adapter v = some text) ↔ ¬ s.Circular adapter v
  /-- It is the text that the rules for texts lead to, in whatever number of steps. -/
  steps_iff : ∀ text, s.text? adapter v = some text ↔
    ∃ steps, v.textWith (s.referText adapter steps) = some text
  converts_iff : ∀ target, (∃ answer, v.convertTo? (s.text? adapter) target = some answer) ↔
    (v.isWrittenFor target = true → ¬ s.Circular adapter v)
  /-- A value that is written becomes its text, or the failure shows it. -/
  written : ∀ target text, v.isWrittenFor target = true → s.text? adapter v = some text →
    v.convertTo? (s.text? adapter) target =
      some (if target = .string then .ok (.string text) else .error ⟨text, v.type, target⟩)

theorem rendersExactly {adapter : Adapter} (h : adapter.Describes) (s : Store) (v : Value) :
    s.RendersExactly adapter v := by
  have hiff : (∃ text, s.text? adapter v = some text) ↔ ¬ s.Circular adapter v := by
    rw [← Option.isSome_iff_exists, isSome_text?_iff h]
  refine ⟨hiff, fun text => text?_eq_some_iff h, fun target => ?_,
    fun target text hwritten ht => ?_⟩
  · rw [← hiff, ← Option.isSome_iff_exists, ← Option.isSome_iff_exists, Value.convertTo?]
    cases v.isWrittenFor target <;> cases s.text? adapter v <;> simp
  · rw [Value.convertTo?, ht, Value.convertTo_of_written hwritten, ht]
    simp

/-- An object that wraps a map has a text, which it becomes, and is shown where it becomes no
integer. -/
theorem rendersExactly_linkedTwice :
    Adapter.bag.Describes ∧
    World.linkedTwice.store.RendersExactly .bag (.list [.object ⟨0⟩, .member World.linkedText]) ∧
    World.linkedTwice.store.text? .bag (.list [.object ⟨0⟩, .member World.linkedText]) =
      some "@\x7bKey=1; Size=2\x7d Text = link" :=
  ⟨Bag.describes, rendersExactly Bag.describes _ _, by decide +kernel⟩

end Store

namespace World

def boxedNull : World :=
  (initial #[]).withStore ((Store.initial #[]).after (Store.wrapAs (.map [("Self", .null)]) []))

def selfGot : World :=
  boxedNull.call (liftM ((View.ofObject ⟨0⟩).get? bagEnvironment.adapter "self") :
    Run MemberError (Option Member)) (·.toList)

def selfEntry : Member :=
  ⟨.made 0, "Self", .initial, some ⟨0⟩, .adapted ⟨.model, ⟨0⟩, .bag (.entry "Self")⟩⟩

def selfHeld : World :=
  selfGot.call (selfEntry.setValue bagEnvironment (.object ⟨0⟩)) fun _ => []

theorem reachable_selfHeld : selfHeld.Reachable := by
  have hmodest : bagEnvironment.Modest true :=
    CommandHost.environment_modest CommandHost.bare Adapter.honest_bag nofun 0
  have hwrap : Deed true (initial #[]) boxedNull :=
    .wrap (by simp [Knows, Value.members, Value.entryMembers]) []
  have hget : Call true bagEnvironment boxedNull selfGot :=
    .get (.object (by decide +kernel) .all) "self"
  have hset : Call true bagEnvironment selfGot selfHeld :=
    .setValue (by decide +kernel) (by simp [Knows, Value.members])
  exact ⟨#[], by simp, .tail (.tail (.single (.change (.deed hwrap))) (.call hmodest hget))
    (.call hmodest hset)⟩

/-- The write succeeds, and then the object has no text, however long one goes on: it does not
become a text, and is not shown where it becomes no integer. -/
theorem endless_of_selfHeld :
    selfHeld.Reachable ∧
    ((selfEntry.setValue bagEnvironment (.object ⟨0⟩)).run.run selfGot.store).1 = .ok () ∧
    selfHeld.store.cell ⟨0⟩ = .map [("Self", .object ⟨0⟩)] ∧
    (∀ steps, (Value.object ⟨0⟩).textWith (selfHeld.store.referText .bag steps) = none) ∧
    (Value.object ⟨0⟩).convertTo? (selfHeld.store.text? .bag) .string = none ∧
    (Value.object ⟨0⟩).convertTo? (selfHeld.store.text? .bag) .int = none := by
  have hself : selfHeld.store.Mentions .bag (.object ⟨0⟩) (.object ⟨0⟩) :=
    ⟨_, .base ⟨0⟩, by decide +kernel⟩
  have hnone (steps : ℕ) :
      (Value.object ⟨0⟩).textWith (selfHeld.store.referText .bag steps) = none :=
    Store.referText_of_circle Bag.describes (.single hself) steps .refl
  have htext : selfHeld.store.text? .bag (.object ⟨0⟩) = none := hnone _
  refine ⟨reachable_selfHeld, rfl, rfl, hnone, ?_, ?_⟩
  · rw [Value.convertTo?, htext]
    rfl
  · rw [Value.convertTo?, htext]
    rfl

end World

end DynamicMembers
