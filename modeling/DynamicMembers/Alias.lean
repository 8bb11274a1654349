import DynamicMembers.View.HandOut
/-!
Aliases. An alias forwards to the member that its reference names among all members of its owner.
If that is an alias too it is followed in turn, until a member is found that is none, a name is
missing, or a name comes up a second time.

The names followed are names of members of the owner, all different, so their number bounds the
walk.
-/

namespace DynamicMembers

namespace Store

/-- Follows references for at most so many steps; `passed` are the names so far, and `name` is
that of the alias that failures are about. -/
def follow (adapter : Adapter) (s : Store) (o : ObjectId) (name : String) :
    Nat → List String → String → Except MemberError Sighting
  | 0, passed, reference => .error (.aliasCycle name (passed ++ [reference]))
  | steps + 1, passed, reference =>
    if passed.any fun earlier => sameName earlier reference then
      .error (.aliasCycle name (passed ++ [reference]))
    else
      match (View.ofObject o).find? adapter s reference with
      | none => .error (.aliasTargetMissing name reference)
      | some x =>
        match x.member.kind with
        | .aliasOf next _ => s.follow adapter o name steps (passed ++ [reference]) next
        | _ => .ok x

/-- What a reference of an alias leads to in the end. -/
def aliasTarget (adapter : Adapter) (s : Store) (m : Member) (reference : String) :
    Except MemberError (ObjectId × Sighting) :=
  match s.ownerOf m with
  | none => .error (.aliasOutsideContainer m.name)
  | some o => do
    let steps := ((View.ofObject o).union adapter s).length + 2
    .ok (o, ← s.follow adapter o m.name steps [m.name] reference)

end Store

namespace Member

/-- Hands out the member that a reference of an alias leads to in the end. -/
def resolve (adapter : Adapter) (m : Member) (reference : String) : Run MemberError Member := do
  let (o, x) ← (← get).aliasTarget adapter m reference
  (View.ofObject o).handOut x

end Member

end DynamicMembers
