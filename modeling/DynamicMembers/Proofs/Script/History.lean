import DynamicMembers.Script
import Mathlib.Data.List.Basic

/-! # Histories of a script

What can happen to a script: it is compiled, or can not be; a run begins on one of its
blocks; the run that began last ends. Runs may begin within runs, so those in progress
form a stack, and a finite tree of nested invocations is a history that begins and ends
without runs in progress. What a run makes of its block and what it comes to is left
open.

The invariant of histories is that, from the time the script is compiled, there is one
shared block, either in its place or held by a run in progress, and its state goes from
each run that holds it to the next (`Tracks`).
-/
namespace DynamicMembers

namespace Blocks

variable {β ω : Type}

/-- A run either takes the shared block from its place, or runs on a copy of the template. -/
theorem checkOut_cases {blocks remaining : Blocks β} {template block : β} {onCopy isShared : Bool}
    (h : blocks.checkOut template onCopy = (block, isShared, remaining)) :
    (onCopy = false ∧ blocks.shared = some block ∧ isShared = true ∧
        remaining = { blocks with shared := none }) ∨
      ((onCopy = true ∨ blocks.shared = none) ∧ block = template ∧ isShared = false ∧
        remaining = blocks) := by
  obtain ⟨template', shared⟩ := blocks
  cases onCopy with
  | true => simp_all [checkOut]
  | false => cases shared <;> simp_all [checkOut]

/-- A run that has begun: how its block was then, and whether it is the shared one. -/
structure Turn (β : Type) where
  block : β
  isShared : Bool

/-- The blocks of a script, and the runs in progress with the innermost first. -/
structure Scene (β : Type) where
  blocks : Blocks β
  turns : List (Turn β)

/-- What happens to a script. Runs come to some `ω`, be it a value or a failure. -/
inductive Event (β ω : Type)
  | compiled (block : β)
  | refused
  | began (policy : RunPolicy) (turn : Turn β)
  | ended (turn : Turn β) (block : β) (outcome : ω)

namespace Event

def mode? : Event β ω → Option ErrorMode
  | began policy _ => some policy.mode
  | _ => none

def compiled? : Event β ω → Option β
  | compiled block => some block
  | _ => none

def asks : Event β ω → Bool
  | compiled _ | refused => true
  | _ => false

/-- The shared block as a run takes it. -/
def taken? : Event β ω → Option β
  | began _ turn => if turn.isShared then some turn.block else none
  | _ => none

/-- The shared block as a run took it, and as the run puts it back. -/
def held? : Event β ω → Option (β × β)
  | ended turn block _ => if turn.isShared then some (turn.block, block) else none
  | _ => none

end Event

/-- One event. The engine is asked only if there is no template. -/
inductive Happens : Scene β → Event β ω → Scene β → Prop
  | compile {blocks : Blocks β} {turns : List (Turn β)} (block : β) (h : blocks.template = none) :
      Happens ⟨blocks, turns⟩ (.compiled block) ⟨.compiled block, turns⟩
  | refuse {blocks : Blocks β} {turns : List (Turn β)} (h : blocks.template = none) :
      Happens ⟨blocks, turns⟩ .refused ⟨blocks, turns⟩
  | begin {blocks remaining : Blocks β} {turns : List (Turn β)} {template block : β}
      {policy : RunPolicy} {isShared : Bool} (htemplate : blocks.template = some template)
      (h : blocks.checkOut template policy.onCopy = (block, isShared, remaining)) :
      Happens ⟨blocks, turns⟩ (.began policy ⟨block, isShared⟩)
        ⟨remaining, ⟨block, isShared⟩ :: turns⟩
  | finish {blocks : Blocks β} {turns : List (Turn β)} (turn : Turn β) (block : β) (outcome : ω) :
      Happens ⟨blocks, turn :: turns⟩ (.ended turn block outcome)
        ⟨if turn.isShared then blocks.checkIn block else blocks, turns⟩

/-- Events one after another. -/
inductive History : Scene β → List (Event β ω) → Scene β → Prop
  | nil (scene : Scene β) : History scene [] scene
  | concat {first middle last : Scene β} {events : List (Event β ω)} {event : Event β ω}
      (h : History first events middle) (hlast : Happens middle event last) :
      History first (events ++ [event]) last

namespace History

variable {first middle last : Scene β} {events : List (Event β ω)} {event : Event β ω}

theorem single (h : Happens first event last) : History first [event] last :=
  .concat (.nil first) h

theorem append {more : List (Event β ω)} (h : History first events middle)
    (hmore : History middle more last) : History first (events ++ more) last := by
  induction hmore with
  | nil => rwa [List.append_nil]
  | concat _ hlast ih =>
    rw [← List.append_assoc]
    exact .concat ih hlast

/-- A run puts its own events around what happens meanwhile. -/
theorem around {blocks remaining called : Blocks β} {turns : List (Turn β)} {template block : β}
    {policy : RunPolicy} {turn : Turn β} {inner : List (Event β ω)} (outcome : ω)
    (htemplate : blocks.template = some template)
    (hout : blocks.checkOut template policy.onCopy = (turn.block, turn.isShared, remaining))
    (hinner : History ⟨remaining, turn :: turns⟩ inner ⟨called, turn :: turns⟩) :
    History ⟨blocks, turns⟩ (.began policy turn :: inner ++ [.ended turn block outcome])
      ⟨if turn.isShared then called.checkIn block else called, turns⟩ :=
  ((single (.begin htemplate hout)).append hinner).concat (.finish turn block outcome)

/-- A history passes through a scene before each of its events and one after. -/
theorem split {past future : List (Event β ω)} (h : History first events last)
    (hevents : events = past ++ event :: future) :
    ∃ before after, History first past before ∧ Happens before event after := by
  induction h generalizing future with
  | nil => simp at hevents
  | @concat before after earlier latest hearlier hlatest ih =>
    rcases List.eq_nil_or_concat future with rfl | ⟨rest, final, rfl⟩
    · obtain ⟨rfl, hevent⟩ := List.append_inj' hevents rfl
      obtain rfl : latest = event := by simpa using hevent
      exact ⟨before, after, hearlier, hlatest⟩
    · rw [List.concat_eq_append, ← List.cons_append, ← List.append_assoc] at hevents
      exact ih (List.append_inj' hevents rfl).1

end History

/-- Each run takes over what the one before it left. -/
def HandedOn : β → List (β × β) → β → Prop
  | first, [], last => first = last
  | first, (taken, left) :: rest, last => taken = first ∧ HandedOn left rest last

theorem HandedOn.concat {first middle left : β} {runs : List (β × β)}
    (h : HandedOn first runs middle) : HandedOn first (runs ++ [(middle, left)]) left := by
  induction runs generalizing first with
  | nil => exact ⟨h.symm, rfl⟩
  | cons run rest ih => exact ⟨h.1, ih h.2⟩

/-- No run is in progress: the shared block is in its place if there is one. -/
def AtRest (blocks : Blocks β) : Prop := blocks.shared.isSome = blocks.template.isSome

instance (blocks : Blocks β) : Decidable blocks.AtRest :=
  inferInstanceAs (Decidable (_ = _))

/-- The block that a script was compiled to, before or in the course of the events. -/
def origin? (start : Option β) (events : List (Event β ω)) : Option β :=
  start.or (events.findSome? Event.compiled?)

theorem origin?_concat (start : Option β) (events : List (Event β ω)) (event : Event β ω) :
    origin? start (events ++ [event]) = (origin? start events).or event.compiled? := by
  rw [origin?, origin?, List.findSome?_append, Option.or_assoc]
  cases event <;> rfl

def heldBy (turns : List (Turn β)) : List β := (turns.filter (·.isShared)).map (·.block)

@[simp]
theorem heldBy_shared (block : β) (turns : List (Turn β)) :
    heldBy (⟨block, true⟩ :: turns) = block :: heldBy turns := rfl

@[simp]
theorem heldBy_copy (block : β) (turns : List (Turn β)) :
    heldBy (⟨block, false⟩ :: turns) = heldBy turns := rfl

theorem heldBy_eq_nil {turns : List (Turn β)} :
    heldBy turns = [] ↔ ∀ turn ∈ turns, turn.isShared = false := by
  simp [heldBy]

def heldRuns (events : List (Event β ω)) : List (β × β) := events.filterMap Event.held?

def takenBlocks (events : List (Event β ω)) : List β := events.filterMap Event.taken?

@[simp]
theorem heldRuns_concat (events : List (Event β ω)) (event : Event β ω) :
    heldRuns (events ++ [event]) = heldRuns events ++ event.held?.toList := by
  rw [heldRuns, List.filterMap_append]
  cases h : event.held? <;> simp [heldRuns, h]

@[simp]
theorem takenBlocks_concat (events : List (Event β ω)) (event : Event β ω) :
    takenBlocks (events ++ [event]) = takenBlocks events ++ event.taken?.toList := by
  rw [takenBlocks, List.filterMap_append]
  cases h : event.taken? <;> simp [takenBlocks, h]

def Scene.sharedBlocks (scene : Scene β) : List β :=
  scene.blocks.shared.toList ++ heldBy scene.turns

/-- What the events from the start have come to. -/
structure Tracks (start : Blocks β) (events : List (Event β ω)) (scene : Scene β) : Prop where
  template : scene.blocks.template = origin? start.template events
  uncompiled : origin? start.template events = none →
    scene = ⟨start, []⟩ ∧ ∀ event ∈ events, event = .refused
  /-- There is one shared block, and it is as the last run that held it left it. -/
  shared : ∀ first, origin? start.shared events = some first → ∃ last,
    HandedOn first (heldRuns events) last ∧ scene.sharedBlocks = [last]
  /-- What was taken has been put back, or it is held. -/
  taken : takenBlocks events = (heldRuns events).map (·.1) ++ heldBy scene.turns

namespace Tracks

variable {start : Blocks β} {events : List (Event β ω)} {event : Event β ω} {scene after : Scene β}

theorem isSome_origin? (hstart : start.AtRest) (events : List (Event β ω)) :
    (origin? start.shared events).isSome = (origin? start.template events).isSome := by
  rw [origin?, origin?, Option.isSome_or, Option.isSome_or, hstart]

theorem nil : Tracks start ([] : List (Event β ω)) ⟨start, []⟩ where
  template := by simp [origin?]
  uncompiled _ := ⟨rfl, by simp⟩
  shared first h := by
    have hslot : start.shared = some first := by simpa [origin?] using h
    exact ⟨first, rfl, by simp [Scene.sharedBlocks, hslot, heldBy]⟩
  taken := rfl

/-- While the engine only refuses, nothing runs. -/
theorem filterMap_of_refused {α : Type} {f : Event β ω → Option α} (hf : f .refused = none)
    (h : ∀ event ∈ events, event = .refused) : events.filterMap f = [] := by
  rw [List.filterMap_eq_nil_iff]
  intro event hevent
  rw [h event hevent, hf]

/-- Once the script is compiled, there is a shared block. -/
theorem exists_shared (hstart : start.AtRest) (ht : Tracks start events scene) {template : β}
    (h : scene.blocks.template = some template) : ∃ first last,
      origin? start.shared events = some first ∧
        HandedOn first (heldRuns events) last ∧ scene.sharedBlocks = [last] := by
  have hsome : (origin? start.shared events).isSome := by
    rw [isSome_origin? hstart, ← ht.template, h]
    rfl
  obtain ⟨first, hfirst⟩ := Option.isSome_iff_exists.mp hsome
  obtain ⟨last, hlast⟩ := ht.shared first hfirst
  exact ⟨first, last, hfirst, hlast⟩

theorem compile {blocks : Blocks β} {turns : List (Turn β)} {block : β}
    (hstart : start.AtRest) (ht : Tracks start events ⟨blocks, turns⟩)
    (h : blocks.template = none) :
    Tracks start (events ++ [.compiled block]) ⟨.compiled block, turns⟩ := by
  have horigin : origin? start.template events = none := ht.template.symm.trans h
  obtain ⟨hscene, hrefused⟩ := ht.uncompiled horigin
  obtain ⟨rfl, rfl⟩ : blocks = start ∧ turns = [] := by simpa using hscene
  have hshared : origin? blocks.shared events = none := by
    rw [← Option.isNone_iff_eq_none, ← Option.not_isSome, isSome_origin? hstart, horigin]
    rfl
  constructor
  · simp [origin?_concat, horigin, Event.compiled?, Blocks.compiled]
  · simp [origin?_concat, Event.compiled?]
  · intro first hfirst
    obtain rfl : block = first := by
      simpa [origin?_concat, hshared, Event.compiled?] using hfirst
    refine ⟨block, ?_, rfl⟩
    rw [heldRuns_concat, heldRuns, filterMap_of_refused rfl hrefused]
    rfl
  · rw [heldRuns_concat, takenBlocks_concat, heldRuns, takenBlocks,
      filterMap_of_refused rfl hrefused, filterMap_of_refused rfl hrefused]
    rfl

theorem refuse (ht : Tracks start events scene) :
    Tracks start (events ++ [.refused]) scene := by
  have horigin (first : Option β) :
      origin? first (events ++ [.refused]) = origin? first events := by
    rw [origin?_concat]
    exact Option.or_none
  constructor
  · rw [horigin, ht.template]
  · intro hnone
    obtain ⟨hscene, hrefused⟩ := ht.uncompiled (by rwa [horigin] at hnone)
    refine ⟨hscene, fun event hevent => ?_⟩
    rcases List.mem_append.mp hevent with hevent | hevent
    · exact hrefused event hevent
    · exact List.mem_singleton.mp hevent
  · intro first hfirst
    simpa [Event.held?] using ht.shared first (by rwa [horigin] at hfirst)
  · simpa [Event.held?, Event.taken?] using ht.taken

/-- Runs of a compiled script leave the template alone. -/
theorem of_run (ht : Tracks start events scene) (hcompiled : scene.blocks.template ≠ none)
    (hevent : event.compiled? = none) (htemplate : after.blocks.template = scene.blocks.template)
    (hshared : ∀ first last, HandedOn first (heldRuns events) last →
      scene.sharedBlocks = [last] → ∃ next,
        HandedOn first (heldRuns (events ++ [event])) next ∧ after.sharedBlocks = [next])
    (htaken : takenBlocks (events ++ [event]) =
      (heldRuns (events ++ [event])).map (·.1) ++ heldBy after.turns) :
    Tracks start (events ++ [event]) after := by
  have horigin (first : Option β) : origin? first (events ++ [event]) = origin? first events := by
    rw [origin?_concat, hevent, Option.or_none]
  constructor
  · rw [horigin, htemplate, ht.template]
  · intro hnone
    rw [horigin, ← ht.template] at hnone
    exact absurd hnone hcompiled
  · intro first hfirst
    obtain ⟨last, hhanded, hblocks⟩ := ht.shared first (by rwa [horigin] at hfirst)
    exact hshared first last hhanded hblocks
  · exact htaken

theorem begin {blocks remaining : Blocks β} {turns : List (Turn β)} {template block : β}
    {policy : RunPolicy} {isShared : Bool} (hstart : start.AtRest)
    (ht : Tracks start events ⟨blocks, turns⟩) (htemplate : blocks.template = some template)
    (h : blocks.checkOut template policy.onCopy = (block, isShared, remaining)) :
    Tracks start (events ++ [.began policy ⟨block, isShared⟩])
      ⟨remaining, ⟨block, isShared⟩ :: turns⟩ := by
  have hcompiled : blocks.template ≠ none := by simp [htemplate]
  have htaken : takenBlocks events = (heldRuns events).map (·.1) ++ heldBy turns := ht.taken
  rcases checkOut_cases h with ⟨-, hslot, rfl, rfl⟩ | ⟨-, rfl, rfl, rfl⟩
  · -- The block was in its place, so no other run holds it.
    obtain ⟨-, last, -, -, hblocks⟩ := ht.exists_shared hstart htemplate
    have hfree : heldBy turns = [] := by
      simpa [Scene.sharedBlocks, hslot] using congrArg List.tail hblocks
    refine ht.of_run hcompiled rfl rfl (fun first last hhanded hblocks => ⟨last, ?_, ?_⟩) ?_
    · simpa [Event.held?] using hhanded
    · simpa [Scene.sharedBlocks, hslot] using hblocks
    · simp [Event.held?, Event.taken?, htaken, hfree]
  · refine ht.of_run hcompiled rfl rfl (fun first last hhanded hblocks => ⟨last, ?_, hblocks⟩) ?_
    · simpa [Event.held?] using hhanded
    · simpa [Event.held?, Event.taken?] using htaken

theorem finish {blocks : Blocks β} {turns : List (Turn β)} (turn : Turn β) (block : β)
    (outcome : ω) (ht : Tracks start events ⟨blocks, turn :: turns⟩) :
    Tracks start (events ++ [.ended turn block outcome])
      ⟨if turn.isShared then blocks.checkIn block else blocks, turns⟩ := by
  have hcompiled : blocks.template ≠ none := fun hnone => by
    simpa using (ht.uncompiled (ht.template.symm.trans hnone)).1
  have htaken := ht.taken
  obtain ⟨held, isShared⟩ := turn
  cases isShared with
  | true =>
    -- The run holds the only shared block, so its place is empty and no other run holds it.
    have halone {last : β}
        (hblocks : Scene.sharedBlocks ⟨blocks, ⟨held, true⟩ :: turns⟩ = [last]) :
        blocks.shared = none ∧ heldBy turns = [] ∧ held = last := by
      cases hslot : blocks.shared <;> simp_all [Scene.sharedBlocks]
    refine ht.of_run hcompiled rfl ?_ (fun first last hhanded hblocks => ⟨block, ?_, ?_⟩) ?_
    · rw [if_pos rfl, checkIn]
      split <;> rfl
    · obtain ⟨-, -, rfl⟩ := halone hblocks
      simpa [Event.held?] using hhanded.concat
    · obtain ⟨hslot, hfree, -⟩ := halone hblocks
      simp [Scene.sharedBlocks, checkIn, hslot, hfree]
    · simpa [Event.held?, Event.taken?] using htaken
  | false =>
    refine ht.of_run hcompiled rfl rfl (fun first last hhanded hblocks => ⟨last, ?_, hblocks⟩) ?_
    · simpa [Event.held?] using hhanded
    · simpa [Event.held?, Event.taken?] using htaken

theorem happens (hstart : start.AtRest) (ht : Tracks start events scene)
    (h : Happens scene event after) : Tracks start (events ++ [event]) after := by
  cases h with
  | compile block htemplate => exact ht.compile hstart htemplate
  | refuse htemplate => exact ht.refuse
  | begin htemplate hout => exact ht.begin hstart htemplate hout
  | finish turn block outcome => exact ht.finish turn block outcome

/-- When the last run has ended, the shared block is back in its place. -/
theorem returned {blocks : Blocks β} (hstart : start.AtRest)
    (ht : Tracks start events ⟨blocks, []⟩) {template : β} (h : blocks.template = some template) :
    ∃ first last, origin? start.shared events = some first ∧ blocks.shared = some last ∧
      HandedOn first (heldRuns events) last ∧
        takenBlocks events = (heldRuns events).map (·.1) := by
  obtain ⟨first, last, hfirst, hhanded, hblocks⟩ := ht.exists_shared hstart h
  refine ⟨first, last, hfirst, ?_, hhanded, ?_⟩
  · cases hslot : blocks.shared <;> simp_all [Scene.sharedBlocks, heldBy]
  · simpa [heldBy] using ht.taken

theorem atRest {blocks : Blocks β} (hstart : start.AtRest)
    (ht : Tracks start events ⟨blocks, []⟩) : blocks.AtRest := by
  cases h : blocks.template with
  | some template =>
    obtain ⟨-, last, -, hlast, -⟩ := ht.returned hstart h
    simp [AtRest, h, hlast]
  | none =>
    obtain ⟨hscene, -⟩ := ht.uncompiled (ht.template.symm.trans h)
    obtain rfl : blocks = start := by simpa using hscene
    exact hstart

end Tracks

/-- Is the event one for which the time had come? The engine is asked before there is a block,
given here as the origin. A run gets the shared block unless it wants a copy or another run holds
it, and else a copy of what the script was compiled to. The run that ends is the innermost. -/
def Event.Due (origin : Option β) (turns : List (Turn β)) : Event β ω → Prop
  | compiled _ | refused => origin = none
  | began policy turn =>
    (turn.isShared = true ↔ policy.onCopy = false ∧ ∀ other ∈ turns, other.isShared = false) ∧
      (turn.isShared = false → origin = some turn.block)
  | ended turn _ _ => turns.head? = some turn

theorem Tracks.due {start : Blocks β} {events : List (Event β ω)} {event : Event β ω}
    {scene after : Scene β} (hstart : start.AtRest) (ht : Tracks start events scene)
    (h : Happens scene event after) : event.Due (origin? start.template events) scene.turns := by
  cases h with
  | compile block htemplate | refuse htemplate => exact ht.template.symm.trans htemplate
  | finish turn block outcome => rfl
  | @begin blocks _ turns template _ policy _ htemplate hout =>
    obtain ⟨-, last, -, -, hblocks⟩ := ht.exists_shared hstart htemplate
    have horigin : origin? start.template events = some template := ht.template.symm.trans htemplate
    rcases checkOut_cases hout with ⟨hshared, hslot, rfl, -⟩ | ⟨hcopy, rfl, rfl, -⟩
    · have hfree : heldBy turns = [] := by
        simpa [Scene.sharedBlocks, hslot] using congrArg List.tail hblocks
      exact ⟨⟨fun _ => ⟨hshared, heldBy_eq_nil.mp hfree⟩, fun _ => rfl⟩, by simp⟩
    · refine ⟨⟨by simp, fun ⟨hshared, hfree⟩ => ?_⟩, fun _ => horigin⟩
      -- If no run holds the shared block, it is in its place.
      have hslot : blocks.shared ≠ none := fun hnone => by
        simp [Scene.sharedBlocks, hnone, heldBy_eq_nil.mpr hfree] at hblocks
      simp [hslot, hshared] at hcopy

/-- A script keeps what its runs make of it, from blocks at rest through all events. -/
structure KeepsRuns (start : Blocks β) (events : List (Event β ω)) (scene : Scene β) : Prop where
  tracks : Tracks start events scene
  due : ∀ {past event future}, events = past ++ event :: future → ∃ moment,
    History ⟨start, []⟩ past moment ∧ Tracks start past moment ∧
      event.Due (origin? start.template past) moment.turns
  returned : ∀ template, scene.blocks.template = some template → scene.turns = [] →
    ∃ first last, origin? start.shared events = some first ∧ scene.blocks.shared = some last ∧
      HandedOn first (heldRuns events) last ∧ takenBlocks events = (heldRuns events).map (·.1)

namespace History

variable {start : Blocks β} {events : List (Event β ω)} {scene : Scene β}

theorem tracks (h : History ⟨start, []⟩ events scene) (hstart : start.AtRest) :
    Tracks start events scene := by
  generalize hfirst : (⟨start, []⟩ : Scene β) = first at h
  induction h with
  | nil => exact hfirst ▸ .nil
  | concat _ hlast ih => exact ih.happens hstart hlast

theorem keepsRuns (h : History ⟨start, []⟩ events scene) (hstart : start.AtRest) :
    KeepsRuns start events scene where
  tracks := h.tracks hstart
  due hevents := by
    obtain ⟨before, after, hpast, hevent⟩ := h.split hevents
    have ht := hpast.tracks hstart
    exact ⟨before, hpast, ht, ht.due hstart hevent⟩
  returned template htemplate hturns := by
    obtain ⟨blocks, turns⟩ := scene
    obtain rfl : turns = [] := hturns
    exact (h.tracks hstart).returned hstart htemplate

end History

end Blocks

end DynamicMembers
