import DynamicMembers.Access
import DynamicMembers.Member.Definition
import DynamicMembers.View.Change
/-!
The command language that callables and scripts are written in. A text is one command, and behind
a colon its parameter. A command works on the object it is called for, on its arguments, and on
the members of the object; commands it calls in turn are run one level deeper, down to a depth
that is given beforehand.
-/

namespace DynamicMembers

inductive Command
  | null
  | constant (text : String)
  | args
  | first
  | count
  | sum
  | double
  | base
  | types
  | this
  | get (name : String)
  | set (name : String)
  | call (name : String)
  | note (name : String)
  | remove (name : String)
  | setBase
  | entry (key : String)
  | fail (text : String)
  | flow (statement : String)
  | invalid (text : String)
  | terminate
  | runs
  | mode
  | nest (name : String)
  deriving Repr, DecidableEq

namespace Command

/-- A text up to its first colon, and what follows the colon. -/
def split (text : String) : String × String :=
  let cs := text.toList
  (String.ofList (cs.takeWhile (· != ':')), String.ofList ((cs.dropWhile (· != ':')).drop 1))

/-- The command that a text stands for. -/
def ofText? (text : String) : Option Command :=
  let (word, param) := split text
  match word with
  | "null" => some null
  | "const" => some (constant param)
  | "args" => some args
  | "first" => some first
  | "count" => some count
  | "sum" => some sum
  | "double" => some double
  | "base" => some base
  | "types" => some types
  | "this" => some this
  | "get" => some (get param)
  | "set" => some (set param)
  | "call" => some (call param)
  | "note" => some (note param)
  | "remove" => some (remove param)
  | "setbase" => some setBase
  | "map" => some (entry param)
  | "fail" => some (fail param)
  | "flow" => some (flow param)
  | "invalid" => some (invalid param)
  | "terminate" => some terminate
  | "runs" => some runs
  | "mode" => some mode
  | "nest" => some (nest param)
  | _ => none

/-- Is a text a script? Two texts stand for scripts that can not be compiled. -/
def check (text : String) : Except ScriptError Unit :=
  if text = "!invalid" then .error (.invalidOperation "cannot compile")
  else if text = "!terminate" then .error .terminate
  else if (ofText? text).isSome then .ok ()
  else .error (.runtime s!"unknown script \x60{text}\x60")

/-! ## What commands work on -/

def ownerOf (call : Invocation) : Run Failure ObjectId :=
  match call.owner with
  | some o => return o
  | none => throw (.text "no context")

def firstArg (call : Invocation) : Value :=
  call.args.headD .null

def integer (env : Environment) (v : Value) : Run Failure Int64 := do
  match v.expectInt ((← MonadState.get).text env.adapter) with
  | .ok i => return i
  | .error fault => throw (.conversion fault)

def memberOf (env : Environment) (o : ObjectId) (name : String) : Run Failure Member := do
  match ← ((View.ofObject o).get? env.adapter name : StateM Store (Option Member)) with
  | some m => return m
  | none => throw (.text s!"no member \x60{name}\x60")

def ofMember {α : Type} (run : Run MemberError α) : Run Failure α :=
  run.mapFailure .member

/-- The sum of integers that wraps around. -/
def total (env : Environment) : List Value → Run Failure Int64
  | [] => return 0
  | v :: rest => do
    let i ← integer env v
    return i + (← total env rest)

/-- Runs a command. `constantOf` reads the text of a constant. -/
def run (env : Environment) (constantOf : String → Option Value) (call : Invocation) :
    Command → Run Failure Value
  | null => return .null
  | constant text =>
    match constantOf text with
    | some v => return v
    | none => throw (.text "bad const")
  | args => return .list call.args
  | first => return firstArg call
  | count => return .int (Int64.ofNat call.args.length)
  | sum => do return .int (← total env call.args)
  | double => do return .int (2 * (← integer env (firstArg call)))
  | base => do
    let o ← ownerOf call
    return (← MonadState.get).baseValue o
  | types => do
    let o ← ownerOf call
    return .list (((← MonadState.get).typeNames o).map .string)
  | this => do
    match call.owner with
    | some o => return .string ((← MonadState.get).text env.adapter (.object o))
    | none => return .string "<none>"
  | get name => do
    let m ← memberOf env (← ownerOf call) name
    ofMember (m.value env)
  | set name => do
    let m ← memberOf env (← ownerOf call) name
    ofMember (m.setValue env (firstArg call))
    return .null
  | Command.call name => do
    let m ← memberOf env (← ownerOf call) name
    ofMember (m.invoke env call.args)
  | note name => do
    let cell ← (Store.addCell (firstArg call) : StateM Store CellId)
    let m ← ofMember (Member.define name (.note cell))
    let o ← ownerOf call
    let _ ← ofMember ((View.ofObject o).add m false)
    return .null
  | remove name => do
    let o ← ownerOf call
    return .boolean (← ofMember ((View.ofObject o).remove name)).isSome
  | setBase => do
    let o ← ownerOf call
    modify fun s => s.setBaseValue o (firstArg call)
    return .null
  | entry key => do
    let o ← ownerOf call
    let s ← MonadState.get
    match (s.baseValue o).expectMap (s.text env.adapter) with
    | .error fault => throw (.conversion fault)
    | .ok entries =>
      match NameMap.lookup key entries with
      | some v => return v
      | none => throw (.text s!"no key \x60{key}\x60")
  | fail text => throw (.text text)
  | flow statement => throw (.script (.flowControl statement))
  | invalid text => throw (.script (.invalidOperation text))
  | terminate => throw (.script .terminate)
  | runs => return .int (Int64.ofNat call.runs)
  | mode => return .string call.mode.name
  | nest name => do
    let n ← integer env (firstArg call)
    if n ≤ 0 then return .int (Int64.ofNat call.runs)
    else do
      let m ← memberOf env (← ownerOf call) name
      let inner ← ofMember (m.invoke env [.int (n - 1)])
      return .list [.int (Int64.ofNat call.runs), inner]

def evaluate (env : Environment) (constantOf : String → Option Value) (text : String)
    (call : Invocation) : Run Failure Value :=
  match ofText? text with
  | some command => command.run env constantOf call
  | none => throw (.text s!"unknown command \x60{(split text).1}\x60")

end Command

/-- What an environment is made of whose callables and scripts are commands. -/
structure CommandHost where
  adapter : Adapter
  code : NameMap CodeReference
  hasEngine : Bool
  constantOf : String → Option Value

namespace CommandHost

/-- The environment in which commands call each other to at most this depth. The environment of the
next level is made when a command is run, so a great depth costs nothing by itself. -/
def environment (host : CommandHost) : Nat → Environment
  | 0 => {
      adapter := host.adapter, code := host.code, hasEngine := host.hasEngine,
      compiles := Command.check
      evaluate := fun _ _ => throw (.text "call depth exceeded") }
  | depth + 1 => {
      adapter := host.adapter, code := host.code, hasEngine := host.hasEngine,
      compiles := Command.check
      evaluate := fun text call =>
        Command.evaluate (host.environment depth) host.constantOf text call }

end CommandHost

end DynamicMembers
