import DynamicMembers.Alias
import DynamicMembers.Script
import DynamicMembers.Store.Text
/-!
Access to members: reading and writing values, and calling methods. Failures name the member they
are about. What goes wrong inside adapters, callables and scripts is the source of such a failure,
but for the termination of a script, which passes through. `valueItself` and `setValueItself` are
for members that are no aliases.
-/

namespace DynamicMembers

/-! ## Callables -/

namespace CodeReference

def call (env : Environment) (code : CodeReference) (owner : ObjectId) (args : List Value) :
    Run Failure Value :=
  match code.body with
  | .typeNames => do return .list (((← get).typeNames owner).map .string)
  | .hosted text => env.evaluate text ⟨some owner, args, 0, .propagate⟩

/-- The arguments as the parameters want them. -/
def convertArgs (write : Value → String) :
    List ParamType → List Value → Except ConversionError (List Value)
  | .value type :: params, v :: args => do
    let converted ← v.convertTo write type
    return converted :: (← convertArgs write params args)
  | .owner :: params, v :: args => do return v :: (← convertArgs write params args)
  | _, _ => return []

end CodeReference

/-! ## Failures of members -/

/-- A conversion at some moment; its failure is one of the member. -/
def convertFor (env : Environment) (m : Member) (type : ValueType) (v : Value) :
    Run MemberError Value := do
  match v.convertTo ((← get).text env.adapter) type with
  | .ok converted => return converted
  | .error fault => throw (.conversion m.name fault)

namespace Member

/-- A request to the adapter of a member that may change the base value and the shelf. -/
def askAdapter (binding : Binding) (wrap : Failure → MemberError)
    (request : Store → AdapterState → Except Failure AdapterState) : Run MemberError Unit := do
  let s ← get
  match request s (s.adapterState binding) with
  | .ok state => set (s.setAdapterState binding state)
  | .error failure => throw (wrap failure)

/-! ## Reading -/

def valueItself (env : Environment) (m : Member) : Run MemberError Value := do
  let s ← get
  match m.kind with
  | .code none _ => throw (.getValue m.name .noGetter)
  | .code (some getter) _ =>
    match s.ownerOf m with
    | none => throw (.getValue m.name .detached)
    | some owner => do
      let v ← (getter.call env owner []).mapFailure (.getValueInvocation m.name)
      match getter.returns with
      | some type => convertFor env m type v
      | none => return v
  | .note cell | .captured cell => return s.cell cell
  | .slot target => return s.cell target.cell
  | .script none _ _ => throw (.getValue m.name .noGetterScript)
  | .script (some getter) _ policy =>
    (getter.run env (s.ownerOf m) [] policy).mapFailure
      (ScriptError.toMemberError (.getValueInvocation m.name))
  | .adapted binding =>
    let adapter := binding.adapter.adapter env.adapter
    if !adapter.isGettable (s.adapterState binding) binding.data then
      throw (.getValue m.name .writeOnly)
    else match adapter.get (s.adapterState binding) binding.data with
      | .ok v => return v
      | .error failure => throw (.getValueInvocation m.name failure)
  | .inferred _ => return .null
  | .dynamic => throw (.invalidOperation m.name .unknownValue)
  | _ => return .member m

/-- The value of a member. An alias converts the value of the member it leads to. -/
def value (env : Environment) (m : Member) : Run MemberError Value :=
  match m.kind with
  | .aliasOf reference conversion => do
    let v ← (← m.resolve env.adapter reference).valueItself env
    match conversion with
    | some type => convertFor env m type v
    | none => return v
  | _ => m.valueItself env

/-! ## Writing -/

/-- Writes the value of a member that is no alias. -/
def setValueItself (env : Environment) (m : Member) (v : Value) : Run MemberError Unit := do
  let s ← get
  match m.kind with
  | .code _ none => throw (.setValue m.name .readOnly)
  | .code _ (some setter) =>
    match s.ownerOf m with
    | none => throw (.setValue m.name .detached)
    | some owner => do
      let accepted ← match setter.valueParams.head? with
        | some (.value type) => convertFor env m type v
        | _ => pure v
      let _ ← (setter.call env owner [accepted]).mapFailure (.setValueInvocation m.name)
  | .note cell =>
    if m.flags.attached then set (s.setCell cell v) else throw (.setValue m.name .sharedNote)
  | .captured cell => set (s.setCell cell v)
  | .slot target => do
    unless ← (Store.writeVariable target v : StateM Store Bool) do
      throw (.setValue m.name (.lockedVariable target.name))
  | .script _ none _ => throw (.setValue m.name .readOnly)
  | .script _ (some setter) policy =>
    let _ ← (setter.run env (s.ownerOf m) [v] policy).mapFailure
      (ScriptError.toMemberError (.setValueInvocation m.name))
  | .adapted binding =>
    let adapter := binding.adapter.adapter env.adapter
    if !adapter.isSettable (s.adapterState binding) binding.data then
      throw (.setValue m.name .readOnly)
    else askAdapter binding (.setValueInvocation m.name) fun _ state =>
      adapter.set state binding.data v
  | _ => throw (.invalidOperation m.name (.notSettable m.type))

/-- Writes the value of a member. An alias writes to the member it leads to. -/
def setValue (env : Environment) (m : Member) (v : Value) : Run MemberError Unit :=
  match m.kind with
  | .aliasOf reference _ => do (← m.resolve env.adapter reference).setValueItself env v
  | _ => m.setValueItself env v

/-! ## Calling -/

/-- Calls a native method: the arguments are counted and converted first, and what comes back is
converted, or forgotten if nothing is declared to come back. -/
def invokeCode (env : Environment) (m : Member) (code : CodeReference) (args : List Value) :
    Run MemberError Value := do
  let s ← get
  match s.ownerOf m with
  | none => throw (.methodInvocation m.name .detached)
  | some owner =>
    let expected := code.params.length - 1
    if args.length ≠ expected then throw (.methodInvocation m.name (.arity expected args.length))
    else match CodeReference.convertArgs (s.text env.adapter) code.valueParams args with
      | .error fault => throw (.methodInvocation m.name (.conversion fault))
      | .ok converted => do
        let v ← (code.call env owner converted).mapFailure (.methodInvocation m.name)
        match code.returns with
        | some type => convertFor env m type v
        | none => return .null

/-- Calls a method with hints for the choice of an overload, or reads an indexed property. -/
def invokeWith (env : Environment) (m : Member) (hints : InvocationHints) (args : List Value) :
    Run MemberError Value := do
  let s ← get
  let write := s.text env.adapter
  match m.kind with
  | .method binding =>
    let adapter := binding.adapter.adapter env.adapter
    match adapter.invoke write (s.adapterState binding) binding.data hints args with
    | .ok v => return v
    | .error failure => throw (.methodInvocation m.name failure)
  | .codeMethod callee => m.invokeCode env callee args
  | .scriptMethod script policy =>
    (script.run env (s.ownerOf m) args policy).mapFailure
      (ScriptError.toMemberError (.methodInvocation m.name))
  | .parameterized binding =>
    let adapter := binding.adapter.adapter env.adapter
    match adapter.getIndexed write (s.adapterState binding) binding.data args with
    | .ok v => return v
    | .error failure => throw (.getValueInvocation m.name failure)
  | _ => throw (.invalidOperation m.name (.notInvocable m.type))

def invoke (env : Environment) (m : Member) (args : List Value) : Run MemberError Value :=
  m.invokeWith env .none args

def invokeSet (env : Environment) (m : Member) (v : Value) (args : List Value) :
    Run MemberError Unit := do
  let s ← get
  match m.kind with
  | .parameterized binding =>
    let adapter := binding.adapter.adapter env.adapter
    if !adapter.isIndexedSettable (s.adapterState binding) binding.data then
      throw (.setValue m.name .indexedReadOnly)
    else askAdapter binding (.setValueInvocation m.name) fun s state =>
      adapter.setIndexed (s.text env.adapter) state binding.data v args
  | _ => throw (.invalidOperation m.name (.noIndexedSetter m.type))

end Member

end DynamicMembers
