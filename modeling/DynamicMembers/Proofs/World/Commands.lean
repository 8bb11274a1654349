import DynamicMembers.Proofs.Store.Commands
import DynamicMembers.Proofs.World.Operations

/-! # Commands are modest

A command looks members up by name in the object that it is called for, and uses them and
its arguments. So a host of commands has no other way to members and to the store than
anyone else (`CommandHost.environment_modest`), however deep commands call each other: by
induction on the depth, as the commands of one level are run with the environment of the
level below.
-/
namespace DynamicMembers
open Store World

theorem Value.eq_map_of_expectMap {write : Value → String} {v : Value} {entries : NameMap Value}
    (h : v.expectMap write = .ok entries) : v = .map entries := by
  cases v <;> cases h
  rfl

namespace Command

variable {sharing : Bool} {env : Environment} {w : World} {call : Invocation} {name : String}
  {α : Type} {got : α → List Member}

theorem does_plain {v : Value} (h : v.members = []) :
    w.Does sharing (pure v : Run Failure Value) Value.members :=
  does_ok (by simp [h])

theorem does_withOwner {use : ObjectId → Run Failure α} (hcall : w.Serves call)
    (h : ∀ o, o.index < w.store.objects.size → w.Does sharing (use o) got) :
    w.Does sharing (ownerOf call >>= use) got := by
  unfold ownerOf
  split
  next o ho => exact h o (hcall.owner o ho)
  next => exact does_throw _

theorem does_integer (v : Value) : w.Does sharing (integer env v) fun _ => [] := by
  refine does_read_then ?_
  split
  · exact does_ok fun _ h => absurd h List.not_mem_nil
  · exact does_throw _

theorem does_total (vs : List Value) : w.Does sharing (total env vs) fun _ => [] := by
  induction vs generalizing w with
  | nil => exact does_ok fun _ h => absurd h List.not_mem_nil
  | cons v rest ih =>
    exact (does_integer v).andThen fun _ _ _ _ => ih.andThen fun _ _ _ _ =>
      does_ok fun _ h => absurd h List.not_mem_nil

theorem does_withMember {use : Member → Run Failure α} (hcall : w.Serves call)
    (h : ∀ m w', Deeds sharing w w' → m ∈ w'.members → w'.Does sharing (use m) got) :
    w.Does sharing (do use (← memberOf env (← ownerOf call) name)) got := by
  refine does_withOwner hcall fun o ho => ?_
  have hmember : w.Does sharing (memberOf env o name) ([·]) := by
    refine (does_get? env.adapter (.object ho .all) name).andThen fun found w' _ hfound => ?_
    split
    · exact does_ok (by simpa using hfound)
    · exact does_throw _
  exact hmember.andThen fun m w' hw' hm => h m w' hw' (hm m (List.mem_singleton_self m))

theorem does_baseValue {o : ObjectId} {v : Value}
    (hv : v.members ⊆ (w.store.baseValue o).members) :
    w.Does sharing (pure v : Run Failure Value) Value.members := by
  unfold baseValue at hv
  split at hv
  next state _ =>
    refine ⟨_, .single (.readCell state.base), rfl, ?_⟩
    rintro _ ⟨⟩ m hm
    exact List.mem_append_left _ (hv hm)
  next => exact does_plain (List.subset_nil.mp hv)

theorem knows_firstArg (hcall : w.Serves call) : w.Knows (firstArg call) := by
  unfold firstArg
  cases hargs : call.args with
  | nil => exact fun _ h => absurd h List.not_mem_nil
  | cons v rest => exact hcall.args v (hargs ▸ List.mem_cons_self)

theorem does_note (hcall : w.Serves call) :
    w.Does sharing (do
      let cell ← (Store.addCell (firstArg call) : StateM Store CellId)
      let m ← ofMember (Member.define name (.note cell))
      let o ← ownerOf call
      let _ ← ofMember ((View.ofObject o).add m false)
      return .null) Value.members := by
  have hkeep : Deed sharing w _ := .keep (knows_firstArg hcall)
  refine does_lift_then hkeep rfl ?_
  have hoffers : World.Offers sharing { w with
      store := w.store.after (Store.addCell (firstArg call))
      kinds := .note ⟨w.store.cells.size⟩ :: .captured ⟨w.store.cells.size⟩ :: w.kinds }
      (.note ⟨w.store.cells.size⟩) := .made (fun _ => List.mem_cons_self) nofun nofun
  refine (Does.mapFailure _ (does_define name hoffers)).andThen fun m w' hw' hm => ?_
  refine does_withOwner (hcall.later (.head hkeep hw')) fun o ho => ?_
  refine (Does.mapFailure _ (does_add (.object ho .all) (hm m (List.mem_singleton_self m))
    false)).andThen fun _ _ _ _ => ?_
  exact does_plain rfl

theorem does_run (henv : env.Modest sharing) {constantOf : String → Option Value}
    (hconstant : ∀ {text v}, constantOf text = some v → v.members = []) (hcall : w.Serves call)
    (command : Command) : w.Does sharing (command.run env constantOf call) Value.members := by
  have hargs : ∀ m ∈ (Value.list call.args).members, m ∈ w.members := fun m hm => by
    obtain ⟨v, hv, hm⟩ := Value.mem_members_list.mp hm
    exact hcall.args v hv m hm
  cases command with
  | null | count | runs | mode => exact does_plain rfl
  | args => exact does_ok hargs
  | first => exact does_ok (knows_firstArg hcall)
  | fail | flow | invalid | terminate => exact does_throw _
  | constant text =>
    simp only [run]
    split
    next hv => exact does_plain (hconstant hv)
    next => exact does_throw _
  | sum => exact (does_total call.args).andThen fun _ _ _ _ => does_plain rfl
  | double => exact (does_integer _).andThen fun _ _ _ _ => does_plain rfl
  | base =>
    exact does_withOwner hcall fun o ho => does_read_then (does_baseValue (List.Subset.refl _))
  | types =>
    exact does_withOwner hcall fun o ho => does_read_then
      (does_plain (Value.members_list_eq_nil (by simp [Value.members])))
  | this =>
    simp only [run]
    split
    · exact does_read_then (does_plain rfl)
    · exact does_plain rfl
  | get name =>
    exact does_withMember hcall fun m w' _ hm => (does_value henv hm).mapFailure _
  | set name =>
    exact does_withMember hcall fun m w' hw' hm =>
      ((does_setValue henv hm ((knows_firstArg hcall).later hw')).mapFailure _).andThen
        fun _ _ _ _ => does_plain rfl
  | call name =>
    exact does_withMember hcall fun m w' hw' _ =>
      (does_invokeWith henv .none (hcall.later hw').args).mapFailure _
  | note name => exact does_note hcall
  | remove name =>
    exact does_withOwner hcall fun o ho =>
      ((does_remove (.object ho .all) name).mapFailure _).andThen fun _ _ _ _ => does_plain rfl
  | setBase =>
    refine does_withOwner hcall fun o ho => (does_write ?_).andThen fun _ _ _ _ => does_plain rfl
    unfold setBaseValue
    split
    next => exact .refl
    next state hstate => exact .single (.setCell (.base hstate) (knows_firstArg hcall))
  | entry key =>
    refine does_withOwner hcall fun o ho => does_read_then ?_
    split
    next => exact does_throw _
    next entries hentries =>
      split
      next v hv =>
        refine does_baseValue (o := o) ?_
        rw [Value.eq_map_of_expectMap hentries]
        exact NameMap.members_of_lookup hv
      next => exact does_throw _
  | nest name =>
    refine (does_integer _).andThen fun n w' hw' _ => ?_
    split
    · exact does_plain rfl
    · refine does_withMember (hcall.later hw') fun m _ _ _ => ?_
      refine (Does.mapFailure _ (does_invokeWith henv .none (List.forall_mem_singleton.mpr
        fun _ h => absurd h List.not_mem_nil))).andThen fun inner _ _ hinner => ?_
      exact does_ok (by simpa [Value.members, Value.itemMembers] using hinner)

end Command

/-- Commands of any depth have no other way to members and to the store than anyone else, if the
constants that they know have no members in them. -/
theorem CommandHost.environment_modest (host : CommandHost) (hadapter : host.adapter.Honest)
    (hconstant : ∀ {text v}, host.constantOf text = some v → v.members = []) (depth : Nat) :
    (host.environment depth).Modest sharing := by
  induction depth with
  | zero => exact ⟨hadapter, fun _ _ _ _ => does_throw _⟩
  | succ depth ih =>
    refine ⟨hadapter, fun text {call w} hcall => ?_⟩
    show w.Does sharing (Command.evaluate (host.environment depth) host.constantOf text call)
      Value.members
    unfold Command.evaluate
    split
    · exact Command.does_run ih hconstant hcall _
    · exact does_throw _

end DynamicMembers
