import DynamicMembers.Member.Basic
import DynamicMembers.NameMap
import DynamicMembers.Number.Binary64
/-!
Dynamically typed values.
-/

namespace DynamicMembers

/-- A value. The entries of a map are in order, and no two have the same name. -/
inductive Value
  | null
  | boolean (b : Bool)
  | int (i : Int64)
  | float (x : Binary64)
  | string (s : String)
  | list (items : List Value)
  | map (entries : List (String × Value))
  | object (o : ObjectId)
  | member (m : Member)
  deriving Repr

namespace Value

def type : Value → ValueType
  | null => .null
  | boolean _ => .boolean
  | int _ => .int
  | float _ => .float
  | string _ => .string
  | list _ => .list
  | map _ => .map
  | object _ => .object
  | member _ => .member

instance : Inhabited Value := ⟨null⟩

mutual

/-- How often an object or a member occurs in a value, at any depth of its lists and maps. -/
def referenceCount : Value → Nat
  | object _ | member _ => 1
  | list items => itemReferenceCount items
  | map entries => entryReferenceCount entries
  | _ => 0

def itemReferenceCount : List Value → Nat
  | [] => 0
  | v :: rest => referenceCount v + itemReferenceCount rest

def entryReferenceCount : List (String × Value) → Nat
  | [] => 0
  | (_, v) :: rest => referenceCount v + entryReferenceCount rest

end

/-- Does the value count as true? -/
def isTruthy : Value → Bool
  | null => false
  | boolean b => b
  | int i => i != 0
  | float x => !x.isZero
  | string s => s != ""
  | list items => !items.isEmpty
  | map _ => true
  | object _ => true
  | member _ => true

end Value

end DynamicMembers
