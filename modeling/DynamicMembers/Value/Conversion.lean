import DynamicMembers.Number.Reading
import DynamicMembers.Number.Shortest
import DynamicMembers.Text.Blank
import DynamicMembers.Value.Basic
/-!
Conversion of values between types. A text becomes a number if, without blanks at its ends, it is
the text of one; a floating-point number becomes the nearest integer, a half going to the even one.
Conversion to a text writes the value, so the functions here take the writer of values.
-/

namespace DynamicMembers

/-- A value that is not of the type asked for and does not become one. -/
structure ConversionError where
  value : String
  source : ValueType
  target : ValueType
  deriving Repr, DecidableEq

namespace ConversionError

def message (e : ConversionError) : String :=
  s!"cannot convert value \"{e.value}\" of type {e.source.name} to type {e.target.name}"

end ConversionError

/-- The nearest integer. The number just above the largest one counts as the largest. -/
def Binary64.toInt64? (x : Binary64) : Option Int64 :=
  match x.toInt? with
  | none => none
  | some i => if i = 0x8000000000000000 then some Int64.maxValue else fitInt64 i

/-- The integer a text stands for, if need be by way of the nearest floating-point number. -/
def readInt64 (s : String) : Option Int64 :=
  let cs := trimBlank s.toList
  ((readInt cs).bind fitInt64).orElse fun _ => (readFloat cs).bind Binary64.toInt64?

namespace Value

def conversionError (write : Value → String) (v : Value) (target : ValueType) : ConversionError :=
  ⟨write v, v.type, target⟩

def toInt64? : Value → Option Int64
  | null => some 0
  | boolean b => some (if b then 1 else 0)
  | float x => x.toInt64?
  | string s => readInt64 s
  | _ => none

def toBinary64? : Value → Option Binary64
  | null => some .zero
  | boolean b => some (if b then .one else .zero)
  | int i => some (.ofInt i.toInt)
  | string s => readFloat (trimBlank s.toList)
  | _ => none

/-- The value as one of another type, if there is a way. -/
def changeType? (write : Value → String) (target : ValueType) (v : Value) : Option Value :=
  match target with
  | .any => some v
  | .null => none
  | .boolean => some (boolean v.isTruthy)
  | .int => v.toInt64?.map int
  | .float => v.toBinary64?.map float
  | .string => some (string (write v))
  | .list => some (match v with
    | null => list []
    | other => list [other])
  | .map => none
  | .object => none
  | .member => none

/-- The value as one of the type asked for; a value of that type stays as it is. -/
def convertTo (write : Value → String) (target : ValueType) (v : Value) :
    Except ConversionError Value :=
  if target = .any ∨ v.type = target then .ok v
  else match changeType? write target v with
    | some converted => .ok converted
    | none => .error (conversionError write v target)

/-- Is the value written when it is converted: as the text it becomes, or into the failure? -/
def isWrittenFor (target : ValueType) (v : Value) : Bool :=
  !(target == .any || v.type == target) &&
    (target == .string || (v.changeType? (fun _ => "") target).isNone)

/-- The value as one of the type asked for, given the texts of values. There is no answer if the
value is written and has no text. -/
def convertTo? (write : Value → Option String) (target : ValueType) (v : Value) :
    Option (Except ConversionError Value) :=
  if v.isWrittenFor target && (write v).isNone then none
  else some (v.convertTo (fun v => (write v).getD "") target)

theorem convertTo?_eq_some_iff {write : Value → Option String} {target : ValueType} {v : Value}
    {answer : Except ConversionError Value} : v.convertTo? write target = some answer ↔
      (v.isWrittenFor target = true → (write v).isSome = true) ∧
        v.convertTo (fun v => (write v).getD "") target = answer := by
  unfold convertTo?
  cases v.isWrittenFor target <;> cases write v <;> simp

def expect (write : Value → String) (target : ValueType) (v : Value) :
    Except ConversionError Value :=
  if v.type = target then .ok v else .error (conversionError write v target)

def expectInt (write : Value → String) : Value → Except ConversionError Int64
  | int i => .ok i
  | v => .error (conversionError write v .int)

def expectMap (write : Value → String) : Value → Except ConversionError (NameMap Value)
  | map entries => .ok entries
  | v => .error (conversionError write v .map)

end Value

end DynamicMembers
