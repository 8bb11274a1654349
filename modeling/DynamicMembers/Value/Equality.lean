import DynamicMembers.Value.Basic
/-!
Equality of values. Integers and floating-point numbers compare with each other as floating-point
numbers. Maps are equal if they have as many entries and every entry of the one has an equal one
under the same name in the other. Objects and members are equal only to themselves.
-/

namespace DynamicMembers.Value

mutual

/-- Are the values equal? -/
def same : Value → Value → Bool
  | null, other => match other with
    | null => true
    | _ => false
  | boolean a, other => match other with
    | boolean b => a == b
    | _ => false
  | int a, other => match other with
    | int b => a == b
    | float b => (Binary64.ofInt a.toInt).same b
    | _ => false
  | float a, other => match other with
    | float b => a.same b
    | int b => (Binary64.ofInt b.toInt).same a
    | _ => false
  | string a, other => match other with
    | string b => a == b
    | _ => false
  | list a, other => match other with
    | list b => sameItems a b
    | _ => false
  | map a, other => match other with
    | map b => a.length == b.length && sameEntries a b
    | _ => false
  | object a, other => match other with
    | object b => a == b
    | _ => false
  | member a, other => match other with
    | member b => a.id == b.id
    | _ => false

def sameItems : List Value → List Value → Bool
  | [], [] => true
  | a :: as, b :: bs => same a b && sameItems as bs
  | _, _ => false

/-- Is every entry of the first map in the second? -/
def sameEntries : List (String × Value) → List (String × Value) → Bool
  | [], _ => true
  | (key, a) :: rest, b =>
    (match NameMap.lookup key b with
      | some other => same a other
      | none => false) && sameEntries rest b

end

end DynamicMembers.Value
