import Sequencer.Discovery

/-! The log of one queue: its own events, oldest first, and what can be read off it. An invocation
is a piece of user code that the library calls for the queue. -/
namespace Sequencer

def Event.queue? : Event κ ν ε → Option QueueId
  | .appended queue _ _ | .asked queue _ | .started queue _ _ | .activated queue _ _
  | .applied queue _ _ _ _ | .settled queue _ _ _ | .refused queue _ _ | .withdrawn queue _
  | .notified queue _ _ _ | .dropped queue _ | .stepUnrecorded queue _ _ | .runUnrecorded queue _
  | .completed queue _ _ | .failed queue _ _ => some queue
  | .observerPanicked _ _ | .noted _ => none

abbrev Log (κ ν ε : Type) := List (Event κ ν ε)

def World.log (world : World κ ν ε) (queue : QueueId) : Log κ ν ε :=
  world.history.reverse.filter fun event => event.queue? = some queue

inductive Invocation (κ ν : Type) where
  | recorder (call : Call)
  | step (entry : Entry κ) (input : ν)
  | observer (entry : Entry κ) (error : RunError)

namespace Event

def arrival? : Event κ ν ε → Option (Entry κ)
  | .appended _ entry _ => some entry
  | _ => none

def activation? : Event κ ν ε → Option (Entry κ)
  | .activated _ entry _ => some entry
  | _ => none

def application? : Event κ ν ε → Option (Entry κ)
  | .applied _ _ entry _ _ => some entry
  | _ => none

def notice? : Event κ ν ε → Option (Entry κ)
  | .notified _ entry _ _ => some entry
  | _ => none

def call? : Event κ ν ε → Option Call
  | .asked _ call => some call
  | _ => none

def invocation? : Event κ ν ε → Option (Invocation κ ν)
  | .asked _ call => some (.recorder call)
  | .applied _ _ entry _ input => some (.step entry input)
  | .notified _ entry _ error => some (.observer entry error)
  | _ => none

def withdrawal : Event κ ν ε → List (Entry κ)
  | .withdrawn _ remaining => remaining
  | _ => []

end Event

namespace Log

abbrev arrivals (log : Log κ ν ε) : List (Entry κ) := log.filterMap Event.arrival?

abbrev activated (log : Log κ ν ε) : List (Entry κ) := log.filterMap Event.activation?

abbrev applied (log : Log κ ν ε) : List (Entry κ) := log.filterMap Event.application?

abbrev notified (log : Log κ ν ε) : List (Entry κ) := log.filterMap Event.notice?

abbrev withdrawn (log : Log κ ν ε) : List (Entry κ) := log.flatMap Event.withdrawal

abbrev calls (log : Log κ ν ε) : List Call := log.filterMap Event.call?

abbrev invocations (log : Log κ ν ε) : List (Invocation κ ν) := log.filterMap Event.invocation?

abbrev deeds (log : Log κ ν ε) : Log κ ν ε := log.filter fun event => event.arrival?.isNone

theorem readQuiet {f : Event κ ν ε → Option β} (log : Log κ ν ε) {events : Log κ ν ε}
    (quiet : events.filterMap f = []) : (log ++ events).filterMap f = log.filterMap f := by
  rw [List.filterMap_append, quiet, List.append_nil]

theorem activatedNext (log : Log κ ν ε) (queue : QueueId) (entry : Entry κ) (info : StepInfo)
    (call : Call) : Log.activated (log ++ [.activated queue entry info, .asked queue call]) =
      log.activated ++ [entry] := by
  simp [activated, List.filterMap_cons, Event.activation?]

theorem withdrawnQuiet (log : Log κ ν ε) {events : Log κ ν ε} (quiet : events.withdrawn = []) :
    Log.withdrawn (log ++ events) = log.withdrawn := by
  have none : events.flatMap Event.withdrawal = [] := quiet
  rw [withdrawn, List.flatMap_append, none, List.append_nil]

end Log

namespace World

theorem logOfBlank (world : World κ ν ε) (silent : world.history = []) (queue : QueueId) :
    world.log queue = [] := by
  simp [log, silent]

@[simp] theorem logAfterRecord (world : World κ ν ε) (event : Event κ ν ε) (queue : QueueId) :
    (world.record event).log queue =
      if event.queue? = some queue then world.log queue ++ [event] else world.log queue := by
  by_cases own : event.queue? = some queue <;> simp [log, record, own]

theorem logAfterOwn (world : World κ ν ε) {event : Event κ ν ε} {queue : QueueId}
    (own : event.queue? = some queue) :
    (world.record event).log queue = world.log queue ++ [event] := by
  rw [logAfterRecord, if_pos own]

@[simp] theorem logAfterSet (world : World κ ν ε) (id queue : QueueId) (agenda : Agenda κ) :
    (world.setAgenda id agenda).log queue = world.log queue := rfl

@[simp] theorem logAfterTake (world : World κ ν ε) (id queue : QueueId) :
    (world.take id).log queue = world.log queue := rfl

theorem queueAfterSet (world : World κ ν ε) (id queue : QueueId) (agenda : Agenda κ) :
    ((world.setAgenda id agenda).queue queue).name = (world.queue queue).name ∧
      ((world.setAgenda id agenda).queue queue).taken = (world.queue queue).taken := by
  simp only [World.queue, setAgenda, Queue.readAdjusted]
  split <;> simp_all

theorem appendOwn (world : World κ ν ε) (queue : QueueId) (step : Step κ) :
    (world.append queue step).agenda queue = (world.agenda queue).append step ∧
      (world.append queue step).log queue = world.log queue ++
        [.appended queue ((world.agenda queue).entry step) (world.agenda queue).active.isSome] := by
  simp [append, Event.queue?]

theorem appendOther (world : World κ ν ε) {id queue : QueueId} (other : id ≠ queue)
    (step : Step κ) : (world.append id step).agenda queue = world.agenda queue ∧
      (world.append id step).log queue = world.log queue := by
  simp [append, Event.queue?, other, Ne.symm other]

theorem queueAfterTake (world : World κ ν ε) (id queue : QueueId) :
    ((world.take id).queue queue).name = (world.queue queue).name ∧
      ((world.take id).queue queue).taken = (queue = id || (world.queue queue).taken) := by
  simp only [World.queue, take, Queue.readAdjusted]
  split <;> simp_all

end World

end Sequencer
