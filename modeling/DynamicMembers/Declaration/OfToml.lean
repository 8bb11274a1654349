import DynamicMembers.Declaration.Basic
import DynamicMembers.Toml.Document
/-!
Declarations read from TOML documents. A document lists types under `types`, and a type its members
under `members`; the `kind` of a member says which entries it has. Entries that mean nothing are
ignored. A type may also be written as an array of its name and members.

Nothing is said of what is wrong with a document that holds no declarations.
-/

namespace DynamicMembers

namespace Toml

def field? (key : String) (entries : List (String × Toml)) : Option Toml :=
  (entries.find? fun entry => entry.1 == key).map (·.2)

def string? : Toml → Option String
  | string s => some s
  | _ => none

def boolean? : Toml → Option Bool
  | boolean b => some b
  | _ => none

def strings? : Toml → Option (List String)
  | array items => items.mapM string?
  | _ => none

def required {α : Type} (read : Toml → Option α) (key : String)
    (entries : List (String × Toml)) : Option α :=
  (field? key entries).bind read

def optional {α : Type} (absent : α) (read : Toml → Option α) (key : String)
    (entries : List (String × Toml)) : Option α :=
  match field? key entries with
  | some v => read v
  | none => some absent

/-- The type of a value, by its name; also as a table with the name over nothing. -/
def valueType? : Toml → Option ValueType
  | string s => ValueType.ofName? s
  | table [(name, table [])] => ValueType.ofName? name
  | _ => none

/-- The key under which a table of one entry stands for a date or time. -/
def momentKey : String := "$__toml_private_datetime"

/-- The table as a date or time, if its first key says that it is one. -/
def markedMoment? : List (String × Toml) → Option (Option Value)
  | [] => none
  | (key, v) :: rest =>
    if key = momentKey then
      some (match v, rest with
        | string s, [] =>
          match anyMoment s.toList with
          | some (text, []) => some (.string text)
          | _ => none
        | _, _ => none)
    else none

def sortEntries (entries : List (String × Value)) : List (String × Value) :=
  entries.mergeSort fun a b => !decide (b.1 < a.1)

mutual

/-- A TOML value as a value. Dates and times become texts, and the entries of tables come in the
order of their keys. -/
def value? : Toml → Option Value
  | string s => some (.string s)
  | integer i => some (.int i)
  | float x => some (.float x)
  | boolean b => some (.boolean b)
  | moment text => some (.string text)
  | array items => (itemValues? items).map .list
  | table entries =>
    match markedMoment? entries with
    | some marked => marked
    | none => (entryValues? entries).map fun vs => .map (NameMap.ofList (sortEntries vs))

def itemValues? : List Toml → Option (List Value)
  | [] => some []
  | v :: rest => do
    let first ← value? v
    let others ← itemValues? rest
    some (first :: others)

def entryValues? : List (String × Toml) → Option (List (String × Value))
  | [] => some []
  | (key, v) :: rest => do
    let first ← value? v
    let others ← entryValues? rest
    some ((key, first) :: others)

end

end Toml

namespace DeclaredKind

/-- What the entries of a member declare it to be, given the members that are nested in it. -/
def ofEntries? (entries : List (String × Toml)) (nested : Option (List MemberDeclaration)) :
    Option DeclaredKind := do
  let accessor (key : String) : Option (Option String) :=
    Toml.optional none (fun v => v.string?.map some) key entries
  match ← Toml.required (·.string?) "kind" entries with
  | "NoteProperty" => return .note (← Toml.required (·.value?) "value" entries)
  | "AliasProperty" =>
    return .aliasOf (← Toml.required (·.string?) "reference" entries)
      (← Toml.optional none (fun v => v.valueType?.map some) "convert_to" entries)
  | "ScriptProperty" => return .script (← accessor "getter") (← accessor "setter")
  | "CodeProperty" => return .code (← accessor "getter") (← accessor "setter")
  | "ScriptMethod" => return .scriptMethod (← Toml.required (·.string?) "script" entries)
  | "CodeMethod" => return .codeMethod (← Toml.required (·.string?) "code" entries)
  | "PropertySet" => return .propertySet (← Toml.required (·.strings?) "references" entries)
  | "MemberSet" =>
    return .memberSet (← Toml.optional false (·.boolean?) "inherit_members" entries) (← nested)
  | _ => none

end DeclaredKind

namespace MemberDeclaration

mutual

/-- The member that a table declares. -/
def ofToml? : Toml → Option MemberDeclaration
  | .table entries => do
    let name ← Toml.required (·.string?) "name" entries
    let hidden ← Toml.optional false (·.boolean?) "hidden" entries
    let kind ← DeclaredKind.ofEntries? entries (nestedIn? entries)
    some (.declare name hidden kind)
  | _ => none

/-- The members declared under `members`; none if there is no such entry. -/
def nestedIn? : List (String × Toml) → Option (List MemberDeclaration)
  | [] => some []
  | (key, v) :: rest => if key == "members" then allOf? v else nestedIn? rest

def allOf? : Toml → Option (List MemberDeclaration)
  | .array items => eachOf? items
  | _ => none

def eachOf? : List Toml → Option (List MemberDeclaration)
  | [] => some []
  | v :: rest => do
    let first ← ofToml? v
    let others ← eachOf? rest
    some (first :: others)

end

end MemberDeclaration

namespace TypeDeclaration

/-- The type that a table or an array declares. -/
def ofToml? : Toml → Option TypeDeclaration
  | .table entries => do
    let name ← Toml.required (·.string?) "name" entries
    some ⟨name, ← MemberDeclaration.nestedIn? entries⟩
  | .array (name :: members :: _) => do
    some ⟨← name.string?, ← MemberDeclaration.allOf? members⟩
  | .array [name] => do some ⟨← name.string?, []⟩
  | _ => none

def ofDocument? (text : String) : Option (List TypeDeclaration) := do
  Toml.optional [] (fun
    | .array items => items.mapM ofToml?
    | _ => none) "types" (← Toml.parse? text)

end TypeDeclaration

end DynamicMembers
