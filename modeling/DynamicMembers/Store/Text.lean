import DynamicMembers.Member.Shape
import DynamicMembers.Value.Text
import DynamicMembers.View.Lookup
/-!
What objects and members look like. An object looks like the value it wraps. A member shows its
value, its accessors, its overloads or the names of its members, as its kind has them.

A value has no text if it contains itself. The way from a value to the ones inside leads from one
object or member to the next, and all but the first occur in values of the store. An occurrence that
is met again on the way contains itself, so their number bounds the steps that are needed. One cell
can be passed more often than once: the entries of a map may refer to each other.
-/

namespace DynamicMembers.Store

def visibleNames (adapter : Adapter) (s : Store) (m : Member) : List String :=
  match View.ofMember? s m with
  | some v => (v.visibleSightings adapter s).map (·.name)
  | none => []

def valuedText (write : Value → Option String) (name : String) (v : Value) : Option String :=
  (write v).map fun text => v.type.name ++ " " ++ name ++ "=" ++ text

/-- The text of a member, given the texts of values. -/
def memberText (adapter : Adapter) (s : Store) (write : Value → Option String) (m : Member) :
    Option String :=
  match m.kind with
  | .aliasOf reference _ => some (m.name ++ " = " ++ reference)
  | .code getter setter =>
    some ((codeValueType getter setter).name ++ " " ++ m.name ++ "\x7b" ++
      (if getter.isSome then "get;" else "") ++ (if setter.isSome then "set;" else "") ++ "\x7d")
  | .note cell | .captured cell => valuedText write m.name (s.cell cell)
  | .slot target => valuedText write m.name (s.cell target.cell)
  | .script getter setter _ =>
    let accessor (verb : String) : Option ScriptId → String
      | some script => verb ++ "=" ++ (s.script script).text ++ ";"
      | none => ""
    some (m.name ++ " \x7b" ++ accessor "get" getter ++ accessor "set" setter ++ "\x7d")
  | .adapted binding =>
    (binding.adapter.adapter adapter).describe write (s.adapterState binding) binding.data m.name
  | .inferred typeName => some (typeName ++ " " ++ m.name)
  | .propertySet references =>
    some (m.name ++ " \x7b" ++ ", ".intercalate references ++ "\x7d")
  | .method _ | .codeMethod _ | .scriptMethod _ _ | .parameterized _ =>
    some (", ".intercalate (m.overloads adapter))
  | .memberSet _ _ =>
    some (m.name ++ " \x7b" ++ ", ".intercalate (s.visibleNames adapter m) ++ "\x7d")
  | .event _ handlerType => some ("event " ++ handlerType ++ " " ++ m.name)
  | .dynamic => some ("dynamic " ++ m.name)

/-- The text of an object or a member that is found in at most so many steps. -/
def referText (adapter : Adapter) (s : Store) : Nat → Value → Option String
  | 0, _ => none
  | steps + 1, v =>
    let write := Value.textWith (referText adapter s steps)
    match v with
    | .object o => write (s.baseValue o)
    | .member m => s.memberText adapter write m
    | other => write other

/-- How often objects and members occur in the values of the store. -/
def referenceCount (s : Store) : Nat :=
  Value.itemReferenceCount s.cells.toList + Value.itemReferenceCount s.shelf.toList

def text? (adapter : Adapter) (s : Store) (v : Value) : Option String :=
  v.textWith fun r => s.referText adapter (s.referenceCount + 1) r

/-- The text of a value; empty if it has none. -/
def text (adapter : Adapter) (s : Store) (v : Value) : String :=
  (s.text? adapter v).getD ""

end DynamicMembers.Store
