import DynamicMembers.Access
/-!
Accesses that write values. An adapter may write the base value into the answer of a method, and a
value that is converted may be written as a text or into the failure: the arguments of a call, the
value for a setter, what comes back from a callable, and what is read by way of an alias. A value
that contains itself has no text, and an access that writes it never answers. What callables and
scripts write while they run is left to them.
-/

namespace DynamicMembers

/-- Does it come to an end to make the value one of the type, if there is a type? -/
def Store.finishes (adapter : Adapter) (s : Store) (type : Option ValueType) (v : Value) : Bool :=
  type.all fun type => (v.convertTo? (s.text? adapter) type).isSome

/-- Does it come to an end to make what the run returns a value of the type? -/
def Run.finishes {ε : Type} (adapter : Adapter) (x : Run ε Value) (type : Option ValueType)
    (s : Store) : Bool :=
  match x.run.run s with
  | (.ok v, t) => t.finishes adapter type v
  | (.error _, _) => true

theorem Run.finishes_none {ε : Type} (adapter : Adapter) (x : Run ε Value) (s : Store) :
    x.finishes adapter none s = true := by
  unfold finishes
  split <;> rfl

namespace CodeReference

/-- The arguments that are written when they are converted; a failure is the last. -/
def writtenArgs : List ParamType → List Value → List Value
  | .value type :: params, v :: args =>
    if v.isWrittenFor type then
      v :: if type == .string then writtenArgs params args else []
    else writtenArgs params args
  | .owner :: params, _ :: args => writtenArgs params args
  | _, _ => []

/-- Does a call with these arguments come to an end with what comes back from it? -/
def returnFinishes (env : Environment) (s : Store) (code : CodeReference) (owner : ObjectId)
    (args : List Value) : Bool :=
  match convertArgs (s.text env.adapter) code.valueParams args with
  | .ok converted => (code.call env owner converted).finishes env.adapter code.returns s
  | .error _ => true

end CodeReference

namespace Member

/-! ## Reading -/

def answersItself (env : Environment) (s : Store) (m : Member) : Bool :=
  match m.kind, s.ownerOf m with
  | .code (some getter) _, some owner =>
    (getter.call env owner []).finishes env.adapter getter.returns s
  | _, _ => true

def answers (env : Environment) (s : Store) (m : Member) : Bool :=
  match m.kind with
  | .aliasOf reference conversion =>
    match (m.resolve env.adapter reference).run.run s with
    | (.ok target, t) =>
      target.answersItself env t && (target.valueItself env).finishes env.adapter conversion t
    | (.error _, _) => true
  | _ => m.answersItself env s

/-- Reads the value of a member, unless that never comes to an end. -/
def value? (env : Environment) (m : Member) (s : Store) :
    Option (Except MemberError Value × Store) :=
  if m.answers env s then some ((m.value env).run.run s) else none

/-! ## Writing -/

/-- Does it come to an end to convert the value for a member that is no alias? -/
def acceptsItself (env : Environment) (s : Store) (m : Member) (v : Value) : Bool :=
  match m.kind, s.ownerOf m with
  | .code _ (some setter), some _ =>
    match setter.valueParams.head? with
    | some (.value type) => s.finishes env.adapter (some type) v
    | _ => true
  | _, _ => true

/-- Does it come to an end to convert the value for the member? -/
def accepts (env : Environment) (s : Store) (m : Member) (v : Value) : Bool :=
  match m.kind with
  | .aliasOf reference _ =>
    match (m.resolve env.adapter reference).run.run s with
    | (.ok target, t) => target.acceptsItself env t v
    | (.error _, _) => true
  | _ => m.acceptsItself env s v

def setValue? (env : Environment) (m : Member) (v : Value) (s : Store) :
    Option (Except MemberError Unit × Store) :=
  if m.accepts env s v then some ((m.setValue env v).run.run s) else none

/-! ## Calling -/

/-- The values that a call with these arguments writes before anything is run. -/
def writtenFor (env : Environment) (s : Store) (m : Member) (hints : InvocationHints)
    (args : List Value) : List Value :=
  match m.kind with
  | .method binding =>
    let adapter := binding.adapter.adapter env.adapter
    (adapter.written (s.adapterState binding) binding.data hints args).toList
  | .codeMethod code =>
    if (s.ownerOf m).isSome && args.length == code.params.length - 1 then
      CodeReference.writtenArgs code.valueParams args
    else []
  | .parameterized binding =>
    let adapter := binding.adapter.adapter env.adapter
    (adapter.shownLocked (s.adapterState binding) binding.data args).toList
  | _ => []

/-- Does it come to an end to convert what comes back from a call with these arguments? -/
def returnFinishes (env : Environment) (s : Store) (m : Member) (args : List Value) : Bool :=
  match m.kind, s.ownerOf m with
  | .codeMethod code, some owner =>
    args.length != code.params.length - 1 || code.returnFinishes env s owner args
  | _, _ => true

def answersCall (env : Environment) (s : Store) (m : Member) (hints : InvocationHints)
    (args : List Value) : Bool :=
  (m.writtenFor env s hints args).all (fun v => (s.text? env.adapter v).isSome) &&
    m.returnFinishes env s args

def invokeWith? (env : Environment) (m : Member) (hints : InvocationHints) (args : List Value)
    (s : Store) : Option (Except MemberError Value × Store) :=
  if m.answersCall env s hints args then some ((m.invokeWith env hints args).run.run s) else none

end Member

end DynamicMembers
