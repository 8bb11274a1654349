import DynamicMembers.Access
/-!
Writes under a lock. A base value is behind a lock, and whoever asks for it while holding it for a
write waits without end. Nothing that the store does asks for it in between, but an indexed write of
the bag adapter does: it takes the lock, then converts the index, and an index that can not be
converted is shown in the failure. If the base value is part of what is shown, the write never
answers.
-/

namespace DynamicMembers

namespace Store

def baseCell? (s : Store) (o : ObjectId) : Option CellId :=
  (s.object? o).map (·.base)

/-- Is the base value read where the member shows itself? What notes and variables hold is behind
locks of their own. -/
def showsBase (s : Store) (base : CellId) (m : Member) : Bool :=
  match m.kind with
  | .adapted binding => binding.base == base
  | .memberSet _ _ =>
    match View.ofMember? s m with
    | some v => !v.sources.isEmpty && v.owner?.bind s.baseCell? == some base
    | none => false
  | _ => false

/-- The text of an object or a member that is found in at most so many steps, none of which reads
the base value. -/
def referTextBeside (adapter : Adapter) (s : Store) (base : CellId) : Nat → Value → Option String
  | 0, _ => none
  | steps + 1, v =>
    let write := Value.textWith (referTextBeside adapter s base steps)
    match v with
    | .object o => if s.baseCell? o == some base then none else write (s.baseValue o)
    | .member m => if s.showsBase base m then none else s.memberText adapter write m
    | other => write other

/-- The text of a value, if it has one that is found without reading the base value. -/
def textBeside? (adapter : Adapter) (s : Store) (base : CellId) (v : Value) : Option String :=
  v.textWith fun r => s.referTextBeside adapter base (s.referenceCount + 1) r

end Store

namespace Member

/-- Does an indexed write with these arguments come to an end? -/
def answersIndexed (env : Environment) (s : Store) (m : Member) (args : List Value) : Bool :=
  match m.kind with
  | .parameterized binding =>
    let adapter := binding.adapter.adapter env.adapter
    let state := s.adapterState binding
    !adapter.isIndexedSettable state binding.data ||
      match adapter.shownLocked state binding.data args with
      | some v => (s.textBeside? env.adapter binding.base v).isSome
      | none => true
  | _ => true

def invokeSet? (env : Environment) (m : Member) (v : Value) (args : List Value) (s : Store) :
    Option (Except MemberError Unit × Store) :=
  if m.answersIndexed env s args then some ((m.invokeSet env v args).run.run s) else none

end Member

end DynamicMembers
