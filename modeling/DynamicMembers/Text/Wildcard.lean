import DynamicMembers.Text.Caseless
import DynamicMembers.Text.Glob
/-!
Wildcard patterns for names: `*`, `?` and `[…]` as in a glob, a backtick in front of a character
that stands for itself, and no regard to case. A backtick at the end stands for nothing.
-/

namespace DynamicMembers

/-- A text that is no wildcard pattern, and why. -/
structure WildcardError where
  pattern : String
  fault : Glob.Fault
  deriving Repr, DecidableEq

namespace WildcardError

def reason (e : WildcardError) : String :=
  e.fault.message

def message (e : WildcardError) : String :=
  s!"invalid wildcard pattern `{e.pattern}`: {e.reason}"

end WildcardError

/-- What a pattern looks for. -/
inductive Wildcard.Target
  | everything
  | exact (name : String)
  | glob (tokens : List Glob.Token)
  deriving Repr, DecidableEq

/-- A wildcard pattern with the text it was read from. -/
structure Wildcard where
  source : String
  target : Wildcard.Target
  deriving Repr, DecidableEq

namespace Wildcard

/-- Is there a wildcard that no backtick escapes? -/
def hasWildcards : List Char → Bool
  | [] => false
  | '\x60' :: _ :: rest => hasWildcards rest
  | c :: rest => c == '*' || c == '?' || c == '[' || hasWildcards rest

/-- The text without its escaping backticks. -/
def unescape : List Char → List Char
  | [] => []
  | ['\x60'] => []
  | '\x60' :: c :: rest => c :: unescape rest
  | c :: rest => c :: unescape rest

def literal (c : Char) : List Char :=
  if c == '*' || c == '?' || c == '[' || c == ']' then ['[', c, ']'] else [c]

/-- The pattern as a glob. A run of `*` becomes one, since a glob reserves `**` for paths;
`afterStar` says that a `*` was written last. -/
def toGlob (afterStar : Bool) : List Char → List Char
  | [] => []
  | ['\x60'] => []
  | '\x60' :: c :: rest => literal c ++ toGlob false rest
  | '*' :: rest => if afterStar then toGlob true rest else '*' :: toGlob true rest
  | c :: rest => c :: toGlob false rest

/-- Reads a pattern. -/
def parse (pattern : String) : Except WildcardError Wildcard :=
  let cs := pattern.toList
  if pattern == "*" then .ok ⟨pattern, .everything⟩
  else if !hasWildcards cs then .ok ⟨pattern, .exact (String.ofList (unescape cs))⟩
  else match Glob.parse ((toGlob false cs).flatMap lowercase) with
    | .ok tokens => .ok ⟨pattern, .glob tokens⟩
    | .error fault => .error ⟨pattern, fault⟩

def everything : Wildcard := ⟨"*", .everything⟩

/-- The one name a pattern without wildcards looks for. -/
def exactName (w : Wildcard) : Option String :=
  match w.target with
  | .exact name => some name
  | _ => none

/-- Does the name match the pattern? -/
def accepts (w : Wildcard) (name : String) : Bool :=
  match w.target with
  | .everything => true
  | .exact exact => sameName exact name
  | .glob tokens => Glob.accepts tokens (fold name)

@[simp] theorem everything_accepts (name : String) : everything.accepts name = true := rfl

end Wildcard

end DynamicMembers
