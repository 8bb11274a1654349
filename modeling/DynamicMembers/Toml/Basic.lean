import DynamicMembers.Number.Binary64
/-!
TOML values, and the characters of TOML documents by class. A reader takes what it reads from the
front of a text and leaves the rest; it has no result if the text does not begin as it should.
-/

namespace DynamicMembers

/-- A value of a TOML document. Dates and times are kept as their normal text. -/
inductive Toml
  | string (s : String)
  | integer (i : Int64)
  | float (x : Binary64)
  | boolean (b : Bool)
  | moment (text : String)
  | array (items : List Toml)
  | table (entries : List (String × Toml))
  deriving Repr

namespace Toml

abbrev Reader (α : Type) := List Char → Option (α × List Char)

def depthLimit : Nat := 80

def isBlankChar (c : Char) : Bool := c == ' ' || c == '\t'

/-- A character of a comment; in a string, one that stands for itself unless it is a quote or a
backslash. -/
def isPlain (c : Char) : Bool := c == '\t' || (' ' ≤ c && c != '\x7f')

def isBareKeyChar (c : Char) : Bool := c.isAlphanum || c == '-' || c == '_'

def skipBlanks (cs : List Char) : List Char := cs.dropWhile isBlankChar

def newline? : List Char → Option (List Char)
  | '\n' :: rest => some rest
  | '\r' :: '\n' :: rest => some rest
  | _ => none

def skipComment : List Char → List Char
  | '#' :: rest => rest.dropWhile isPlain
  | cs => cs

/-- What is behind the line, if nothing more than a comment is left on it. -/
def restOfLine? (cs : List Char) : Option (List Char) :=
  match skipComment (skipBlanks cs) with
  | [] => some []
  | rest => newline? rest

/-- What is behind blanks, comments and line ends, in the middle of a comment or not. -/
def skipFillerFrom : Bool → List Char → Option (List Char)
  | _, '\n' :: rest | _, '\r' :: '\n' :: rest => skipFillerFrom false rest
  | true, [] => none
  | true, c :: rest => if isPlain c then skipFillerFrom true rest else none
  | false, [] => some []
  | false, c :: rest =>
    if c == '#' then skipFillerFrom true rest
    else if c == '\r' then none
    else if isBlankChar c then skipFillerFrom false rest
    else some (c :: rest)

def skipFiller (cs : List Char) : Option (List Char) :=
  skipFillerFrom false cs

end Toml

end DynamicMembers
