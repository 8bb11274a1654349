import DynamicMembers.Number.Shortest
import DynamicMembers.Value.Basic
/-!
The text of a value. Texts are joined as they are: nothing is quoted. What an object or a member
looks like depends on the store, so the text of such a value is asked for; it may have none.
-/

namespace DynamicMembers.Value

mutual

/-- The text of a value, given those of objects and members. -/
def textWith (refer : Value → Option String) : Value → Option String
  | null => some ""
  | boolean b => some (if b then "True" else "False")
  | int i => some (toString i.toInt)
  | float x => some x.text
  | string s => some s
  | list items => (itemTexts refer items).map fun texts => " ".intercalate texts
  | map entries => (entryTexts refer entries).map fun texts =>
    "@\x7b" ++ "; ".intercalate texts ++ "\x7d"
  | object o => refer (object o)
  | member m => refer (member m)

def itemTexts (refer : Value → Option String) : List Value → Option (List String)
  | [] => some []
  | v :: rest => do
    let text ← textWith refer v
    let texts ← itemTexts refer rest
    some (text :: texts)

def entryTexts (refer : Value → Option String) : List (String × Value) → Option (List String)
  | [] => some []
  | (key, v) :: rest => do
    let text ← textWith refer v
    let texts ← entryTexts refer rest
    some ((key ++ "=" ++ text) :: texts)

end

end DynamicMembers.Value
