import DynamicMembers.Declaration.OfToml
import DynamicMembers.Environment
import DynamicMembers.Member.Definition
/-!
Loading of declarations. The members of a type are all made before any is declared for the type;
the types before one that fails stay declared. Scripts that are declared run on copies of their
compiled blocks, so that objects do not see each other's runs.
-/

namespace DynamicMembers

inductive DeclarationFault
  | noEngine
  | unknownCode (name : String)
  | member (error : MemberError)
  | inMember (name : String) (fault : DeclarationFault)

namespace DeclarationFault

def chain : DeclarationFault → List String
  | noEngine => ["script members require a script engine"]
  | unknownCode name => [s!"unknown code reference \x60{name}\x60"]
  | member error => error.message :: error.causes
  | inMember name fault => s!"in member \x60{name}\x60" :: fault.chain

end DeclarationFault

inductive ConfigurationFault
  | noDocument
  | inType (name : String) (fault : DeclarationFault)

namespace ConfigurationFault

def chain : ConfigurationFault → List String
  | noDocument => ["failed to parse type configuration"]
  | inType name fault => s!"in type \x60{name}\x60" :: fault.chain

end ConfigurationFault

namespace MemberDeclaration

def loadScript (env : Environment) (text : String) : Run DeclarationFault ScriptId :=
  if env.hasEngine then (Store.addScript text : StateM Store ScriptId) else throw .noEngine

def findCode (env : Environment) (name : String) : Run DeclarationFault CodeReference :=
  match NameMap.lookup name env.code with
  | some code => return code
  | none => throw (.unknownCode name)

def policy : RunPolicy := ⟨true, .propagate⟩

def hide (hidden : Bool) (m : Member) : Member :=
  if hidden then m.setFlag .hidden true else m

mutual

def loadKind (env : Environment) : DeclaredKind → Run DeclarationFault MemberKind
  | .note v => do return .note (← (Store.addCell v : StateM Store CellId))
  | .aliasOf reference conversion => return .aliasOf reference conversion
  | .script getter setter => do
    return .script (← getter.mapM (loadScript env)) (← setter.mapM (loadScript env)) policy
  | .code getter setter => do
    return .code (← getter.mapM (findCode env)) (← setter.mapM (findCode env))
  | .scriptMethod script => do return .scriptMethod (← loadScript env script) policy
  | .codeMethod code => do return .codeMethod (← findCode env code)
  | .propertySet references => return .propertySet references
  | .memberSet inherits members => do
    match MemberList.ofMembers (← loadAll env members) with
    | .ok l => return .memberSet (.list (← (Store.addList l : StateM Store ListId))) inherits
    | .error error => throw (.member error)

def load (env : Environment) : MemberDeclaration → Run DeclarationFault Member
  | .declare name hidden kind => do
    let kind ← loadKind env kind
    return hide hidden (← (Member.define name kind).mapFailure .member)

def loadAll (env : Environment) : List MemberDeclaration → Run DeclarationFault (List Member)
  | [] => return []
  | declaration :: rest => do
    let first ← (load env declaration).mapFailure (.inMember declaration.name)
    let others ← loadAll env rest
    return first :: others

end

end MemberDeclaration

namespace TypeDeclaration

def declareAll (typeName : String) : List Member → Run DeclarationFault Unit
  | [] => return ()
  | m :: rest => do
    (Store.declare typeName m).mapFailure .member
    declareAll typeName rest

def load (env : Environment) (declaration : TypeDeclaration) : Run DeclarationFault Unit := do
  let members ← MemberDeclaration.loadAll env declaration.members
  modify fun s => { s with types := s.types.declareType declaration.name }
  declareAll declaration.name members

def loadAll (env : Environment) : List TypeDeclaration → Run ConfigurationFault Unit
  | [] => return ()
  | declaration :: rest => do
    (declaration.load env).mapFailure (.inType declaration.name)
    loadAll env rest

end TypeDeclaration

namespace Environment

def loadTypes (env : Environment) (text : String) : Run ConfigurationFault Unit :=
  match TypeDeclaration.ofDocument? text with
  | some declarations => TypeDeclaration.loadAll env declarations
  | none => throw .noDocument

end Environment

end DynamicMembers
