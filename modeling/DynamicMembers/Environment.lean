import DynamicMembers.Adapter.Bag
import DynamicMembers.Store.Basic
/-!
What the members of a model work with: the adapter of the model, the native callables that type
declarations may name, and the host that runs what callables and scripts say.
-/

namespace DynamicMembers

/-- A call of code: the object it works for, the arguments, how often the block has been run, and
how errors are to be reported. -/
structure Invocation where
  owner : Option ObjectId
  args : List Value
  runs : Nat
  mode : ErrorMode

/-- The environment of a model. Scripts of type declarations need an engine; whether there is one
for them is `hasEngine`. -/
structure Environment where
  adapter : Adapter
  code : NameMap CodeReference
  hasEngine : Bool
  /-- Is the text a script? -/
  compiles : String → Except ScriptError Unit
  /-- Runs the text of a callable or script. -/
  evaluate : String → Invocation → Run Failure Value

/-- The adapter that serves a member, given that of the model. -/
def AdapterTag.adapter (model : Adapter) : AdapterTag → Adapter
  | .model => model
  | .bag => .bag

namespace Store

def adapterState (s : Store) (binding : Binding) : AdapterState :=
  ⟨s.shelf, s.cell binding.base⟩

def setAdapterState (s : Store) (binding : Binding) (state : AdapterState) : Store :=
  { s.setCell binding.base state.base with shelf := state.shelf }

end Store

end DynamicMembers
