import DynamicMembers.Proofs.Store.Within
import Mathlib.Logic.Relation

/-! # Reachable stores

A store changes by single steps: the writes that the store itself offers, with any
arguments. A store is reachable if such steps lead to it from one in which nothing
has been done. The steps are freer than the operations on members and views, and
they also pass through the stores that a callable or a script meets while it runs;
what holds of every reachable store therefore holds at every moment of every run.

`Stepwise` says of an operation that it does nothing but such steps: it stays within
the relation `Steps`, which is closed under sequencing.
-/
namespace DynamicMembers

namespace Store

/-- A store in which nothing has been done; on the shelf is what the adapter starts with. -/
def initial (shelf : Array Value) : Store := { empty with shelf := shelf }

/-- One write to a store. A new list is either made of members that were added one after
another, or it belongs to a copy of a member. What a run of a script does to its blocks is
left open. -/
inductive Step (s : Store) : Store → Prop
  | addCell (v : Value) : Step s (s.after (addCell v))
  | setCell (c : CellId) (v : Value) : Step s (s.setCell c v)
  | setShelf (shelf : Array Value) : Step s { s with shelf := shelf }
  | addList {members : List Member} {l : MemberList} (h : MemberList.ofMembers members = .ok l) :
      Step s (s.after (addList l))
  | addToList (l : ListId) (m : Member) (vouched : Bool) :
      Step s (s.after (addToList l m vouched).run)
  | removeFromList (l : ListId) (name : String) : Step s (s.after (removeFromList l name).run)
  | copyFor (owner : Option ObjectId) (m : Member) : Step s (s.after (copyFor owner m))
  | nextMemberId : Step s (s.after nextMemberId)
  | addScript (script : Script) : Step s { s with scripts := s.scripts.push script }
  | setScript (i : ScriptId) (script : Script) : Step s (s.setScript i script)
  | logMode (mode : ErrorMode) : Step s { s with modes := s.modes.push mode }
  | takeModes : Step s (s.after takeModes)
  | wrapAs (v : Value) (typeNames : List String) : Step s (s.after (wrapAs v typeNames))
  | insertTypeName (o : ObjectId) (name : String) : Step s (s.insertTypeName o name)
  | release (o : ObjectId) : Step s (s.release o)
  | declareType (name : String) : Step s { s with types := s.types.declareType name }
  | declare (typeName : String) (m : Member) : Step s (s.after (declare typeName m).run)
  | announce (typeNames : List String) (name : String) : Step s (s.announce typeNames name)
  | takeAnnounced : Step s (s.after takeAnnounced)

abbrev Steps : Store → Store → Prop := Relation.ReflTransGen Step

/-- Do steps lead to the store from one in which nothing has been done? -/
def Reachable (s : Store) : Prop := ∃ shelf, Steps (initial shelf) s

theorem Reachable.initial (shelf : Array Value) : (initial shelf).Reachable :=
  ⟨shelf, .refl⟩

theorem Reachable.steps {s t : Store} (hs : s.Reachable) (h : Steps s t) : t.Reachable := by
  obtain ⟨shelf, hshelf⟩ := hs
  exact ⟨shelf, hshelf.trans h⟩

/-- What holds in the beginning and is kept by every step holds of every reachable store. -/
theorem Reachable.invariant {I : Store → Prop} {s : Store} (hs : s.Reachable)
    (hinitial : ∀ shelf, I (Store.initial shelf)) (hstep : ∀ {s t}, Step s t → I s → I t) :
    I s := by
  obtain ⟨shelf, h⟩ := hs
  induction h with
  | refl => exact hinitial shelf
  | tail _ hlast ih => exact hstep hlast ih

def Stepwise {α : Type} (x : StateM Store α) : Prop := ∀ s : Store, Steps s (s.after x)

theorem Reachable.after {α : Type} {s : Store} {x : StateM Store α} (hs : s.Reachable)
    (hx : Stepwise x) : (s.after x).Reachable :=
  hs.steps (hx s)

/-! ## Operations that do nothing but steps -/

instance : Coherent Steps := ⟨fun _ => .refl, .trans⟩

variable {α β ε : Type}

theorem stepwise_of_step {x : StateM Store α} (h : ∀ s : Store, Step s (s.after x)) :
    Stepwise x :=
  fun s => .single (h s)

theorem stepwise_ok (a : α) : Stepwise (pure a : Run ε α).run := within_ok a

theorem stepwise_throw (failure : ε) : Stepwise (throw failure : Run ε α).run :=
  within_throw failure

theorem stepwise_read : Stepwise (get : Run ε Store).run := within_read

theorem Stepwise.lift {x : StateM Store α} (hx : Stepwise x) :
    Stepwise (liftM x : Run ε α).run := hx

theorem Stepwise.andThen {x : Run ε α} {f : α → Run ε β} (hx : Stepwise x.run)
    (hf : ∀ a, Stepwise (f a).run) : Stepwise (x >>= f).run :=
  Within.andThen hx hf

end Store

end DynamicMembers
