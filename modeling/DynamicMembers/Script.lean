import DynamicMembers.Environment
/-!
Runs of scripts. A script has a template that never runs and a shared block that keeps its state
from run to run. The shared block is checked out while it runs; a run that wants a copy, or finds
the shared block gone, runs on a copy of the template that is forgotten afterwards.
-/

namespace DynamicMembers

namespace Blocks

variable {β : Type}

/-- The blocks of a script that was compiled to this block just now. -/
def compiled (block : β) : Blocks β := ⟨some block, some block⟩

/-- The block to run, whether it is the shared one, and the blocks that remain meanwhile. -/
def checkOut (blocks : Blocks β) (template : β) (onCopy : Bool) : β × Bool × Blocks β :=
  match onCopy, blocks.shared with
  | false, some block => (block, true, { blocks with shared := none })
  | _, _ => (template, false, blocks)

/-- Puts the shared block back, unless another has taken its place. -/
def checkIn (blocks : Blocks β) (block : β) : Blocks β :=
  match blocks.shared with
  | some _ => blocks
  | none => { blocks with shared := some block }

end Blocks

namespace Store

/-- A script that is compiled at once. -/
def addCompiledScript (env : Environment) (text : String) : Run ScriptError ScriptId :=
  match env.compiles text with
  | .error fault => throw fault
  | .ok () => fun s =>
    (.ok ⟨s.scripts.size⟩, { s with scripts := s.scripts.push ⟨text, .compiled ⟨text, 0⟩⟩ })

end Store

namespace ScriptId

/-- The blocks of a script with the template, which is compiled if there is none yet. -/
def prepare (env : Environment) (i : ScriptId) : Run ScriptError (Block × Blocks Block) := do
  let script := (← get).script i
  match script.blocks.template with
  | some template => return (template, script.blocks)
  | none =>
    match env.compiles script.text with
    | .error fault => throw fault
    | .ok () => return (⟨script.text, 0⟩, .compiled ⟨script.text, 0⟩)

/-- Runs a block and returns it as the run leaves it, together with the outcome. -/
def runBlock (env : Environment) (block : Block) (owner : Option ObjectId) (args : List Value)
    (mode : ErrorMode) : StateM Store (Block × Except ScriptError Value) := do
  let ran := { block with runs := block.runs + 1 }
  modify fun s => { s with modes := s.modes.push mode }
  let outcome ← (env.evaluate ran.text ⟨owner, args, ran.runs, mode⟩).run
  return (ran, outcome.mapError .ofFailure)

/-- Runs a script for an object. -/
def run (env : Environment) (i : ScriptId) (owner : Option ObjectId) (args : List Value)
    (policy : RunPolicy) : Run ScriptError Value := do
  let (template, blocks) ← i.prepare env
  let (block, isShared, remaining) := blocks.checkOut template policy.onCopy
  modify fun s => s.setScript i { s.script i with blocks := remaining }
  let (ran, outcome) ← (runBlock env block owner args policy.mode : StateM Store _)
  if isShared then
    modify fun s => s.setScript i { s.script i with blocks := (s.script i).blocks.checkIn ran }
  outcome

end ScriptId

end DynamicMembers
