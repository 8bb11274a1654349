import DynamicMembers.Text.Caseless
/-!
The types of values. Every value has one of the types other than `any`; `any` is asked for where
any value will do.
-/

namespace DynamicMembers

/-- The type of a value, or of the values asked for. -/
inductive ValueType
  | any
  | null
  | boolean
  | int
  | float
  | string
  | list
  | map
  | object
  | member
  deriving Repr, DecidableEq

namespace ValueType

def all : List ValueType :=
  [any, null, boolean, int, float, string, list, map, object, member]

def name : ValueType → String
  | any => "any"
  | null => "null"
  | boolean => "boolean"
  | int => "int"
  | float => "float"
  | string => "string"
  | list => "list"
  | map => "map"
  | object => "object"
  | member => "member"

def ofName? (name : String) : Option ValueType :=
  all.find? fun t => t.name == name

def ofCaselessName? (name : String) : Option ValueType :=
  all.find? fun t => sameAscii t.name name

end ValueType

end DynamicMembers
