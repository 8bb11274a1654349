import DynamicMembers.Proofs.Script.History
import DynamicMembers.Proofs.Store.Commands
import DynamicMembers.Proofs.Store.Copies

/-! # Runs of scripts are histories

A log lists what happens to scripts while an operation works on the store, with the
script each time. It is the log of the operation (`Store.Logged`) if it leads each script
from the blocks it had to the blocks it has then, if the runs that begin in it are those that
the engine was told of, and if each of them leaves its block one run older.

Every operation has a log: the writes to a store leave scripts as they are or add new
ones, and a run puts its own events around those of the host (`ScriptId.RunLog`).
-/
namespace DynamicMembers
open Blocks

def Block.ran (block : Block) : Block := { block with runs := block.runs + 1 }

abbrev ScriptEvent := ScriptId × Event Block (Except ScriptError Value)

namespace ScriptId

def eventsIn (log : List ScriptEvent) (i : ScriptId) :
    List (Event Block (Except ScriptError Value)) :=
  log.filterMap fun entry => if entry.1 = i then some entry.2 else none

variable {i j : ScriptId} {event : Event Block (Except ScriptError Value)} {log : List ScriptEvent}

@[simp]
theorem eventsIn_cons_self : i.eventsIn ((i, event) :: log) = event :: i.eventsIn log := by
  simp [eventsIn]

theorem eventsIn_cons_of_ne (h : j ≠ i) : i.eventsIn ((j, event) :: log) = i.eventsIn log := by
  simp [eventsIn, h]

@[simp]
theorem eventsIn_append (more : List ScriptEvent) :
    i.eventsIn (log ++ more) = i.eventsIn log ++ i.eventsIn more :=
  List.filterMap_append

end ScriptId

namespace Store

/-- The log leads from one store to the other. -/
structure Logged (s : Store) (log : List ScriptEvent) (t : Store) : Prop where
  modes : t.modes.toList = s.modes.toList ++ log.filterMap (·.2.mode?)
  ran : ∀ {i turn block outcome}, (i, .ended turn block outcome) ∈ log → block = turn.block.ran
  scripts : ∀ i : ScriptId, i.index < s.scripts.size → i.index < t.scripts.size ∧
    ∀ turns, History ⟨(s.script i).blocks, turns⟩ (i.eventsIn log) ⟨(t.script i).blocks, turns⟩

/-- A log leads from one store to the other. -/
def Runs (s t : Store) : Prop := ∃ log, Logged s log t

variable {s t u : Store} {log more : List ScriptEvent}

theorem Logged.append (h : Logged s log t) (hmore : Logged t more u) :
    Logged s (log ++ more) u where
  modes := by rw [hmore.modes, h.modes, List.filterMap_append, List.append_assoc]
  ran hended := (List.mem_append.mp hended).elim h.ran hmore.ran
  scripts i hi := by
    obtain ⟨ht, hfirst⟩ := h.scripts i hi
    obtain ⟨hu, hrest⟩ := hmore.scripts i ht
    rw [ScriptId.eventsIn_append]
    exact ⟨hu, fun turns => (hfirst turns).append (hrest turns)⟩

theorem Logged.of_same (hscripts : t.scripts = s.scripts) (hmodes : t.modes = s.modes) :
    Logged s [] t where
  modes := by simp [hmodes]
  ran hended := absurd hended List.not_mem_nil
  scripts i hi := by
    rw [script, script, hscripts]
    exact ⟨hi, fun _ => .nil _⟩

theorem Runs.of_same (hscripts : t.scripts = s.scripts) (hmodes : t.modes = s.modes) : Runs s t :=
  ⟨[], .of_same hscripts hmodes⟩

instance : Coherent Runs where
  refl _ := .of_same rfl rfl
  trans := fun ⟨log, h⟩ ⟨more, hmore⟩ => ⟨log ++ more, h.append hmore⟩

end Store

/-! ## Blocks in the store -/

namespace Store

variable {s : Store} {i j : ScriptId} {blocks : Blocks Block}

def setBlocks (s : Store) (i : ScriptId) (blocks : Blocks Block) : Store :=
  s.setScript i { s.script i with blocks := blocks }

/-- A run has begun: these blocks remain, and the engine has been told how to report errors. -/
def begun (s : Store) (i : ScriptId) (remaining : Blocks Block) (mode : ErrorMode) : Store :=
  { s.setBlocks i remaining with modes := s.modes.push mode }

@[simp]
theorem modes_setBlocks : (s.setBlocks i blocks).modes = s.modes := rfl

@[simp]
theorem size_setBlocks : (s.setBlocks i blocks).scripts.size = s.scripts.size :=
  Array.size_setIfInBounds

@[simp]
theorem script_modes (modes : Array ErrorMode) :
    ({ s with modes := modes } : Store).script i = s.script i := rfl

theorem script_setBlocks_self (hi : i.index < s.scripts.size) :
    ((s.setBlocks i blocks).script i).blocks = blocks := by
  simp [script, setBlocks, setScript, hi]

theorem script_setBlocks_of_ne (h : j ≠ i) : (s.setBlocks i blocks).script j = s.script j := by
  have hindex : i.index ≠ j.index := fun hindex => h (by
    cases i
    cases j
    exact congrArg ScriptId.mk hindex.symm)
  simp [script, setBlocks, setScript, hindex]

end Store

namespace ScriptId
open Store

/-- The template of a script and its blocks, and what the engine is asked for them. -/
inductive Prepares (env : Environment) (script : Script) :
    List (Event Block (Except ScriptError Value)) → Block → Blocks Block → Prop
  | found {template : Block} (h : script.blocks.template = some template) :
      Prepares env script [] template script.blocks
  | compiled (h : script.blocks.template = none) (hcompiles : env.compiles script.text = .ok ()) :
      Prepares env script [.compiled ⟨script.text, 0⟩] ⟨script.text, 0⟩ (.compiled ⟨script.text, 0⟩)

/-- The log of one run of a script, and what the run comes to. The engine refuses to compile the
script, and that is all; or a run begins on a block, the host is called with the block, and the
run ends with the outcome of the call. -/
inductive RunLog (env : Environment) (i : ScriptId) (owner : Option ObjectId) (args : List Value)
    (policy : RunPolicy) (s : Store) : List ScriptEvent → Except ScriptError Value × Store → Prop
  | refused {fault : ScriptError} (h : (s.script i).blocks.template = none)
      (hfault : env.compiles (s.script i).text = .error fault) :
      RunLog env i owner args policy s [(i, .refused)] (.error fault, s)
  | ran {asked : List (Event Block (Except ScriptError Value))} {template : Block}
      {blocks remaining : Blocks Block} {turn : Turn Block} {inner : List ScriptEvent}
      {outcome : Except Failure Value} {called : Store}
      (hprepares : Prepares env (s.script i) asked template blocks)
      (hout : blocks.checkOut template policy.onCopy = (turn.block, turn.isShared, remaining))
      (hcall : (env.evaluate turn.block.text
        ⟨owner, args, turn.block.ran.runs, policy.mode⟩).run.run (s.begun i remaining policy.mode) =
          (outcome, called))
      (hinner : Logged (s.begun i remaining policy.mode) inner called) :
      RunLog env i owner args policy s
        (asked.map (i, ·) ++ ((i, .began policy turn) :: inner ++
          [(i, .ended turn turn.block.ran (outcome.mapError .ofFailure))]))
        (outcome.mapError .ofFailure, if turn.isShared then
          called.setBlocks i ((called.script i).blocks.checkIn turn.block.ran) else called)

variable {env : Environment} {s : Store} {i : ScriptId} {owner : Option ObjectId}
  {args : List Value} {policy : RunPolicy}

namespace Prepares

variable {script : Script} {asked : List (Event Block (Except ScriptError Value))}
  {template : Block} {blocks : Blocks Block}

theorem template_eq (h : Prepares env script asked template blocks) :
    blocks.template = some template := by
  cases h with
  | found h => exact h
  | compiled => rfl

theorem history (h : Prepares env script asked template blocks) (turns : List (Turn Block)) :
    History ⟨script.blocks, turns⟩ asked ⟨blocks, turns⟩ := by
  cases h with
  | found => exact .nil _
  | compiled h => exact .single (.compile _ h)

/-- The engine is not told how to report errors until the script runs. -/
theorem mode?_eq_none (h : Prepares env script asked template blocks) :
    ∀ event ∈ asked, event.mode? = none := by
  cases h with
  | found => simp
  | compiled => simp [Event.mode?]

end Prepares

theorem prepare_cases (env : Environment) (i : ScriptId) (s : Store) :
    (∃ fault, (s.script i).blocks.template = none ∧ env.compiles (s.script i).text = .error fault ∧
        (i.prepare env).run.run s = (.error fault, s)) ∨
      ∃ asked template blocks, Prepares env (s.script i) asked template blocks ∧
        (i.prepare env).run.run s = (.ok (template, blocks), s) := by
  rw [prepare, run_read_then]
  dsimp only
  cases htemplate : (s.script i).blocks.template with
  | some template => exact .inr ⟨[], template, _, .found htemplate, rfl⟩
  | none =>
    cases hcompiles : env.compiles (s.script i).text with
    | error fault => exact .inl ⟨fault, rfl, rfl, rfl⟩
    | ok => exact .inr ⟨_, _, _, .compiled htemplate hcompiles, rfl⟩

theorem eventsIn_map (events : List (Event Block (Except ScriptError Value))) :
    i.eventsIn (events.map (i, ·)) = events := by
  induction events with
  | nil => rfl
  | cons event rest ih => rw [List.map_cons, eventsIn_cons_self, ih]

theorem eventsIn_map_of_ne {j : ScriptId} (h : j ≠ i)
    (events : List (Event Block (Except ScriptError Value))) :
    i.eventsIn (events.map (j, ·)) = [] := by
  induction events with
  | nil => rfl
  | cons event rest ih => rw [List.map_cons, eventsIn_cons_of_ne h, ih]

theorem RunLog.logged {log : List ScriptEvent} {result : Except ScriptError Value × Store}
    (h : RunLog env i owner args policy s log result) : Logged s log result.2 := by
  cases h with
  | refused htemplate hfault =>
    refine ⟨(List.append_nil _).symm, by simp, fun j hj => ⟨hj, fun turns => ?_⟩⟩
    by_cases hij : i = j
    · subst hij
      rw [eventsIn_cons_self]
      exact .single (.refuse htemplate)
    · rw [eventsIn_cons_of_ne hij]
      exact .nil _
  | @ran asked template blocks remaining turn inner outcome called hprepares hout hcall hinner =>
    refine ⟨?_, ?_, fun j hj => ?_⟩
    · have hasked : (asked.map (i, ·)).filterMap (·.2.mode?) = [] := by
        rw [List.filterMap_eq_nil_iff]
        simpa using hprepares.mode?_eq_none
      have hmodes := hinner.modes
      rw [apply_ite modes, modes_setBlocks, ite_self, hmodes, List.filterMap_append, hasked]
      simp [begun, Event.mode?]
    · intro j other block outcome hended
      simp only [List.mem_append, List.mem_map, List.mem_cons] at hended
      rcases hended with ⟨event, hevent, heq⟩ | (hbegan | hended) | hlast
      · obtain ⟨-, rfl⟩ := Prod.mk.inj heq
        cases hprepares <;> simp at hevent
      · simp at hbegan
      · exact hinner.ran hended
      · simp_all
    · obtain ⟨hcalled, hhistory⟩ := hinner.scripts j (by simpa [begun] using hj)
      refine ⟨by dsimp only; split <;> simpa using hcalled, fun turns => ?_⟩
      by_cases hij : i = j
      · subst hij
        -- The run is on top of the runs in progress while the host is at work.
        have hruns := hhistory (turn :: turns)
        rw [begun, script_modes, script_setBlocks_self hj] at hruns
        have hlast : ((if turn.isShared then called.setBlocks i
            ((called.script i).blocks.checkIn turn.block.ran) else called).script i).blocks =
              if turn.isShared then (called.script i).blocks.checkIn turn.block.ran
                else (called.script i).blocks := by
          split
          · exact script_setBlocks_self hcalled
          · rfl
        rw [eventsIn_append, eventsIn_map, eventsIn_append, eventsIn_cons_self, eventsIn_cons_self,
          hlast]
        exact (hprepares.history turns).append (.around _ hprepares.template_eq hout hruns)
      · have hruns := hhistory turns
        rw [begun, script_modes, script_setBlocks_of_ne (Ne.symm hij)] at hruns
        rw [eventsIn_append, eventsIn_map_of_ne hij, eventsIn_append, eventsIn_cons_of_ne hij,
          eventsIn_cons_of_ne hij, apply_ite (script · j), script_setBlocks_of_ne (Ne.symm hij),
          ite_self]
        exact (List.append_nil (j.eventsIn inner)).symm ▸ hruns

theorem run_runBlock (block : Block) (mode : ErrorMode) {outcome : Except Failure Value}
    {called : Store}
    (hcall : (env.evaluate block.text ⟨owner, args, block.ran.runs, mode⟩).run.run
      { s with modes := s.modes.push mode } = (outcome, called)) :
    (runBlock env block owner args mode).run s =
      ((block.ran, outcome.mapError .ofFailure), called) := by
  change ((block.ran, ((env.evaluate block.text ⟨owner, args, block.ran.runs, mode⟩).run.run
    { s with modes := s.modes.push mode }).1.mapError ScriptError.ofFailure),
      ((env.evaluate block.text ⟨owner, args, block.ran.runs, mode⟩).run.run
        { s with modes := s.modes.push mode }).2) = _
  rw [hcall]

/-- What a run comes to, once the blocks are there. -/
theorem run_of_prepared {template : Block} {blocks remaining : Blocks Block} {turn : Turn Block}
    {outcome : Except Failure Value} {called : Store}
    (hprepare : (i.prepare env).run.run s = (.ok (template, blocks), s))
    (hout : blocks.checkOut template policy.onCopy = (turn.block, turn.isShared, remaining))
    (hcall : (env.evaluate turn.block.text ⟨owner, args, turn.block.ran.runs, policy.mode⟩).run.run
      (s.begun i remaining policy.mode) = (outcome, called)) :
    (i.run env owner args policy).run.run s =
      (outcome.mapError .ofFailure, if turn.isShared then
        called.setBlocks i ((called.script i).blocks.checkIn turn.block.ran) else called) := by
  rw [run, run_then_of_ok hprepare]
  dsimp only
  rw [hout]
  dsimp only
  have hblock : (runBlock env turn.block owner args policy.mode).run (s.setBlocks i remaining) =
      ((turn.block.ran, outcome.mapError .ofFailure), called) :=
    run_runBlock turn.block policy.mode hcall
  rw [run_write_then, run_lift_then, ← setBlocks, hblock]
  cases turn.isShared <;> rfl

theorem exists_runLog (henv : env.Within Runs) (i : ScriptId) (owner : Option ObjectId)
    (args : List Value) (policy : RunPolicy) (s : Store) :
    ∃ log, RunLog env i owner args policy s log ((i.run env owner args policy).run.run s) := by
  rcases prepare_cases env i s with ⟨fault, htemplate, hfault, hprepare⟩ |
    ⟨asked, template, blocks, hprepares, hprepare⟩
  · refine ⟨[(i, .refused)], ?_⟩
    rw [run, run_then_of_error hprepare]
    exact .refused htemplate hfault
  · obtain ⟨turn, remaining, hout⟩ : ∃ turn : Turn Block, ∃ remaining,
        blocks.checkOut template policy.onCopy = (turn.block, turn.isShared, remaining) :=
      ⟨⟨_, _⟩, _, rfl⟩
    obtain ⟨outcome, called, hcall⟩ : ∃ outcome called,
        (env.evaluate turn.block.text ⟨owner, args, turn.block.ran.runs, policy.mode⟩).run.run
          (s.begun i remaining policy.mode) = (outcome, called) := ⟨_, _, rfl⟩
    obtain ⟨inner, hinner⟩ := henv turn.block.text ⟨owner, args, turn.block.ran.runs, policy.mode⟩
      (s.begun i remaining policy.mode)
    rw [after, hcall] at hinner
    rw [run_of_prepared hprepare hout hcall]
    exact ⟨_, .ran hprepares hout hcall hinner⟩

end ScriptId

/-! ## Every operation has a log -/

namespace Store

theorem runs_pushScript (s : Store) (script : Script) :
    Runs s { s with scripts := s.scripts.push script } := by
  refine ⟨[], (List.append_nil _).symm, by simp, fun i hi => ⟨?_, fun turns => ?_⟩⟩
  · rw [Array.size_push]
    exact Nat.lt_succ_of_lt hi
  · rw [Store.script, Store.script, Array.getElem?_push_lt hi, Array.getElem?_eq_getElem hi]
    exact .nil _

theorem runs_run (env : Environment) (i : ScriptId) (owner : Option ObjectId) (args : List Value)
    (policy : RunPolicy) (henv : env.Within Runs) :
    Within Runs (i.run env owner args policy).run := by
  intro s
  obtain ⟨log, hlog⟩ := i.exists_runLog henv owner args policy s
  exact ⟨log, hlog.logged⟩

instance : Store.Permits Store.Runs where
  addCell _ _ := Runs.of_same rfl rfl
  addScript := runs_pushScript
  addList _ _ := Runs.of_same rfl rfl
  nextMemberId _ := Runs.of_same rfl rfl
  setCell _ _ _ := Runs.of_same rfl rfl
  setShelf _ _ := Runs.of_same rfl rfl
  addToList := within_addToList fun _ _ _ => Runs.of_same rfl rfl
  removeFromList := within_removeFromList fun _ _ _ => Runs.of_same rfl rfl
  copyFor := within_copyFor (fun _ _ => Runs.of_same rfl rfl) (fun _ _ => Runs.of_same rfl rfl)
    fun _ => Runs.of_same rfl rfl
  announce _ _ _ := Runs.of_same rfl rfl
  run := runs_run
  declareType _ _ := Runs.of_same rfl rfl
  declare := within_declare fun _ _ => Runs.of_same rfl rfl
  wrapAs _ _ _ := Runs.of_same rfl rfl
  insertTypeName := related_insertTypeName fun _ _ _ => Runs.of_same rfl rfl
  release := related_release fun _ _ _ => Runs.of_same rfl rfl
  takeAnnounced _ := Runs.of_same rfl rfl

end Store

namespace ScriptId
open Store

/-- Whatever the blocks of a script are and whatever runs make of them, a script keeps what its
runs make of it. A run of a script in the store does so, whatever the host does meanwhile. -/
theorem run_keepsRuns :
    (∀ {β ω : Type} {start : Blocks β} {events : List (Event β ω)} {scene : Scene β},
      start.AtRest → History ⟨start, []⟩ events scene → KeepsRuns start events scene) ∧
    ∀ {env : Environment} {s : Store} {i : ScriptId}, env.Orderly → i.index < s.scripts.size →
      (s.script i).blocks.AtRest → ∀ owner args policy, ∃ log,
        RunLog env i owner args policy s log ((i.run env owner args policy).run.run s) ∧
        Logged s log (s.after (i.run env owner args policy).run) ∧
        KeepsRuns (s.script i).blocks (i.eventsIn log)
          ⟨((s.after (i.run env owner args policy).run).script i).blocks, []⟩ ∧
        ((s.after (i.run env owner args policy).run).script i).blocks.AtRest := by
  refine ⟨fun hstart h => h.keepsRuns hstart, fun {env s i} henv hi hrest owner args policy => ?_⟩
  obtain ⟨log, hlog⟩ := i.exists_runLog (henv Runs) owner args policy s
  obtain ⟨-, hhistory⟩ := hlog.logged.scripts i hi
  have htracks := (hhistory []).tracks hrest
  exact ⟨log, hlog, hlog.logged, (hhistory []).keepsRuns hrest, htracks.atRest hrest⟩

/-- An object with a method that counts down by calling itself. -/
def countdown : Store :=
  (((Store.initial #[]).after (Store.wrapAs .null ["Box"])).after
    (Store.addScript "nest:Down")).after
    (Store.addToList ⟨0⟩ ⟨.made 0, "Down", .initial, some ⟨0⟩,
      .scriptMethod ⟨0⟩ ⟨false, .propagate⟩⟩ true).run

def commands : Environment := CommandHost.bare.environment 3

def counted : Store :=
  countdown.after (run commands ⟨0⟩ (some ⟨0⟩) [.int 2] ⟨false, .propagate⟩).run

theorem run_keepsRuns_countdown :
    (commands.Orderly ∧ 0 < countdown.scripts.size ∧ (countdown.script ⟨0⟩).blocks.AtRest) ∧
    (counted.modes.size = 3 ∧
      (counted.script ⟨0⟩).blocks = ⟨some ⟨"nest:Down", 0⟩, some ⟨"nest:Down", 1⟩⟩) ∧
    (∃ log, RunLog commands ⟨0⟩ (some ⟨0⟩) [.int 2] ⟨false, .propagate⟩ countdown log
        ((run commands ⟨0⟩ (some ⟨0⟩) [.int 2] ⟨false, .propagate⟩).run.run countdown) ∧
      Logged countdown log counted ∧
      KeepsRuns (countdown.script ⟨0⟩).blocks (eventsIn log ⟨0⟩)
        ⟨(counted.script ⟨0⟩).blocks, []⟩ ∧
      (counted.script ⟨0⟩).blocks.AtRest) ∧
    KeepsRuns (⟨none, none⟩ : Blocks Nat)
      [.compiled 0, .began ⟨false, .propagate⟩ ⟨0, true⟩, .began ⟨false, .swallow⟩ ⟨0, false⟩,
        .ended ⟨0, false⟩ 7 "failed", .ended ⟨0, true⟩ 1 "done"] ⟨⟨some 0, some 1⟩, []⟩ := by
  have henv : commands.Orderly := CommandHost.environment_orderly _ 3
  have hscript : 0 < countdown.scripts.size := by decide +kernel
  have hrest : (countdown.script ⟨0⟩).blocks.AtRest := by decide +kernel
  have hinner : History ⟨⟨some 0, none⟩, [⟨0, true⟩]⟩ (.began ⟨false, .swallow⟩ ⟨0, false⟩ :: [] ++
      [.ended ⟨0, false⟩ 7 "failed"]) ⟨⟨some 0, none⟩, [⟨0, true⟩]⟩ :=
    .around _ rfl rfl (.nil _)
  have houter : History ⟨⟨some 0, some 0⟩, []⟩ (.began ⟨false, .propagate⟩ ⟨0, true⟩ :: _ ++
      [.ended ⟨0, true⟩ 1 "done"]) ⟨⟨some 0, some 1⟩, []⟩ :=
    .around _ rfl rfl hinner
  exact ⟨⟨henv, hscript, hrest⟩, ⟨by decide +kernel, by decide +kernel⟩,
    run_keepsRuns.2 henv hscript hrest _ _ _,
    run_keepsRuns.1 rfl ((History.single (.compile 0 rfl)).append houter)⟩

end ScriptId

end DynamicMembers
