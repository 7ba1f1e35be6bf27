import Sequencer.Machine

/-! Steps under other codes. The library never looks at the code of a step, so everything it does
with steps comes out the same when their codes are renamed. -/
namespace Sequencer

variable {α β κ κ' ν ε : Type}

namespace Lane

def map (f : α → β) (lane : Lane α) : Lane β where
  front := lane.front.map f
  back := lane.back.map f
  size := lane.size
  counted := by rw [List.length_map, List.length_map, lane.counted]

variable (f : α → β) (lane : Lane α)

theorem mapToList : (lane.map f).toList = lane.toList.map f := by
  simp [map, toList, List.map_reverse]

theorem mapPush (a : α) : (lane.push a).map f = (lane.map f).push (f a) := rfl

theorem mapPrepend (group : List α) :
    (lane.prepend group).map f = (lane.map f).prepend (group.map f) := by
  induction group with
  | nil => rfl
  | cons a group ih =>
    rw [List.map_cons, prependCons, prependCons, ← ih]
    rfl

theorem mapOfList (items : List α) : ofList (items.map f) = (ofList items).map f := by
  simp [ofList, map]

theorem mapPop : (lane.map f).pop? = lane.pop?.map fun taken => (f taken.1, taken.2.map f) := by
  obtain ⟨front, back, size, counted⟩ := lane
  cases front with
  | cons a rest => rfl
  | nil =>
    simp only [pop?, map, List.map_nil, ← List.map_reverse]
    cases back.reverse with
    | nil => rfl
    | cons a rest => exact congrArg (fun lane => some (f a, lane)) (mapOfList f rest)

theorem mapSame (lane : Lane α) : lane.map id = lane := by
  obtain ⟨front, back, size, counted⟩ := lane
  simp [map]

end Lane

def Step.recode (f : κ → κ') (step : Step κ) : Step κ' where
  kind := step.kind
  code := f step.code
  description := step.description
  failureHook := step.failureHook

def Entry.recode (f : κ → κ') (entry : Entry κ) : Entry κ' :=
  { entry.toStep.recode f with depth := entry.depth, ticket := entry.ticket }

namespace Agenda

def recode (f : κ → κ') (agenda : Agenda κ) : Agenda κ' where
  waiting := agenda.waiting.map (Entry.recode f)
  found := agenda.found.map (Entry.recode f)
  active := agenda.active
  arrivals := agenda.arrivals

variable (f : κ → κ') (agenda : Agenda κ)

theorem recodePending : (agenda.recode f).pending = agenda.pending.map (Entry.recode f) := by
  simp [pending, buffer, pipeline, recode, Lane.mapToList]

theorem recodeEntry (step : Step κ) :
    (agenda.recode f).entry (step.recode f) = (agenda.entry step).recode f := rfl

theorem recodeAppend (step : Step κ) :
    (agenda.append step).recode f = (agenda.recode f).append (step.recode f) := by
  simp only [append]
  cases active : agenda.active <;>
    simp only [recode, active, Lane.mapPush, ← recodeEntry f agenda step]

theorem recodeActivate (index : UInt32) :
    (agenda.recode f).activate index =
      (agenda.activate index).map fun taken => (taken.1.recode f, taken.2.recode f) := by
  simp only [activate, recode, Lane.mapPop, Option.map_map]
  rfl

theorem recodeSettle : agenda.settle.recode f = (agenda.recode f).settle := by
  simp only [settle, recode, buffer, Lane.mapPrepend, Lane.mapToList]
  rfl

theorem recodeRemaining : (agenda.recode f).takeRemaining =
    (agenda.takeRemaining.1.map (Entry.recode f), agenda.takeRemaining.2.recode f) := by
  simp only [takeRemaining, ← recodeSettle]
  exact Prod.ext (Lane.mapToList _ _) (by simp [recode, Lane.map, Lane.empty])

theorem recodeSnapshot (name : String) :
    (agenda.recode f).snapshot name = agenda.snapshot name := by
  simp only [snapshot, recodePending, List.zipIdx_map, List.map_map]
  rfl

theorem recodeSame (agenda : Agenda κ) : agenda.recode id = agenda := by
  have same : Entry.recode (id : κ → κ) = id := rfl
  simp only [recode, same, Lane.mapSame]

end Agenda

namespace Queue

def recode (f : κ → κ') (queue : Queue κ) : Queue κ' where
  name := queue.name
  taken := queue.taken
  agenda := queue.agenda.recode f

theorem recodeSnapshot (f : κ → κ') (queue : Queue κ) :
    (queue.recode f).snapshot = queue.snapshot :=
  queue.agenda.recodeSnapshot f queue.name

theorem recodeSame (queue : Queue κ) : queue.recode id = queue := by
  simp only [recode, Agenda.recodeSame]

end Queue

def Event.recode (f : κ → κ') : Event κ ν ε → Event κ' ν ε
  | .appended queue entry nested => .appended queue (entry.recode f) nested
  | .asked queue call => .asked queue call
  | .started queue run queued => .started queue run queued
  | .activated queue entry info => .activated queue (entry.recode f) info
  | .applied queue step entry info input => .applied queue step (entry.recode f) info input
  | .settled queue info spliced result => .settled queue info spliced result
  | .refused queue info error => .refused queue info error
  | .withdrawn queue remaining => .withdrawn queue (remaining.map (Entry.recode f))
  | .notified queue entry label error => .notified queue (entry.recode f) label error
  | .observerPanicked label payload => .observerPanicked label payload
  | .dropped queue count => .dropped queue count
  | .stepUnrecorded queue info failure => .stepUnrecorded queue info failure
  | .runUnrecorded queue failure => .runUnrecorded queue failure
  | .completed queue total value => .completed queue total value
  | .failed queue error lost => .failed queue error lost
  | .noted remark => .noted remark

theorem Event.recodeBack (f : κ → κ') (g : κ' → κ) (back : ∀ code, g (f code) = code)
    (event : Event κ ν ε) : (event.recode f).recode g = event := by
  have entry (entry : Entry κ) : (entry.recode f).recode g = entry := by
    simp [Entry.recode, Step.recode, back]
  have entries (remaining : List (Entry κ)) :
      (remaining.map (Entry.recode f)).map (Entry.recode g) = remaining := by
    simp [Function.comp_def, entry]
  cases event <;> simp only [Event.recode, entry, entries]

theorem Event.recodeSame (event : Event κ ν ε) : event.recode id = event := by
  have same : Entry.recode (id : κ → κ) = id := rfl
  cases event <;> simp only [Event.recode, same, List.map_id, id_eq]

def World.recode (f : κ → κ') (world : World κ ν ε) : World κ' ν ε :=
  ⟨world.queues.map (Queue.recode f), world.history.map (Event.recode f)⟩

theorem World.queueOfRecode (f : κ → κ') (world : World κ ν ε) (id : QueueId) :
    (world.recode f).queue id = (world.queue id).recode f := by
  rw [World.queue, World.queue, World.recode, List.getElem?_map]
  cases world.queues[id]? <;> rfl

def Program.recode (f : κ → κ') : Program κ ν ε β → Program κ' ν ε β
  | done answer => done answer
  | fail failure => fail failure
  | panic payload => panic payload
  | append queue step next => append queue (step.recode f) (next.recode f)
  | ask queue next => ask queue fun status => (next status).recode f
  | look queue next => look queue fun snapshot => (next snapshot).recode f
  | note remark next => note remark (next.recode f)
  | suspend next => suspend (next.recode f)
  | discard queue next => discard queue fun taken => (next taken).recode f
  | run queue initial next => run queue initial fun result => (next result).recode f

def Recorder.recode (f : κ → κ') (recorder : Recorder κ ν ε) : Recorder κ' ν ε where
  startRun name := (recorder.startRun name).recode f
  startStep run info := (recorder.startStep run info).recode f
  completeStep info step status := (recorder.completeStep info step status).recode f
  completeRun run status := (recorder.completeRun run status).recode f

end Sequencer
