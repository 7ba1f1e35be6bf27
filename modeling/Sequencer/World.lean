import Sequencer.History

/-! All queues and everything that happened to them. Every id names a queue; one that was never
set up has no name and no steps. -/
namespace Sequencer

structure Queue (κ : Type) where
  name : String := ""
  -- A queue is taken once, to be run or to be let go. Its agenda stays within reach.
  taken : Bool := false
  agenda : Agenda κ := {}
  deriving DecidableEq

namespace Queue

def status (queue : Queue κ) : Status :=
  queue.agenda.status queue.name

def snapshot (queue : Queue κ) : Snapshot :=
  queue.agenda.snapshot queue.name

def debug (queue : Queue κ) : String :=
  Text.braced "OperationQueue" [("name", Text.quoted queue.name)]

def handleDebug (queue : Queue κ) : String :=
  Text.braced "QueueHandle" [("name", Text.quoted queue.name)]

def adjust (f : Queue κ → Queue κ) : List (Queue κ) → Nat → List (Queue κ)
  | [], 0 => [f {}]
  | [], n + 1 => {} :: adjust f [] n
  | queue :: rest, 0 => f queue :: rest
  | queue :: rest, n + 1 => queue :: adjust f rest n

theorem readAdjusted (f : Queue κ → Queue κ) (queues : List (Queue κ)) (n m : Nat) :
    (adjust f queues n)[m]?.getD {} =
      if m = n then f (queues[n]?.getD {}) else queues[m]?.getD {} := by
  induction queues, n using adjust.induct generalizing m with
  | case1 => cases m <;> simp [adjust]
  | case2 n ih =>
    cases m with
    | zero => simp [adjust]
    | succ m => simpa [adjust] using ih m
  | case3 => cases m <;> simp [adjust]
  | case4 queue rest n ih =>
    cases m with
    | zero => simp [adjust]
    | succ m => simpa [adjust] using ih m

end Queue

structure World (κ ν ε : Type) where
  queues : List (Queue κ)
  -- Newest first.
  history : List (Event κ ν ε)

namespace World

def queue (world : World κ ν ε) (id : QueueId) : Queue κ :=
  world.queues[id]?.getD {}

def agenda (world : World κ ν ε) (id : QueueId) : Agenda κ :=
  (world.queue id).agenda

def nameOf (world : World κ ν ε) (id : QueueId) : String :=
  (world.queue id).name

def setAgenda (world : World κ ν ε) (id : QueueId) (agenda : Agenda κ) : World κ ν ε :=
  { world with queues := Queue.adjust (fun queue => { queue with agenda }) world.queues id }

def record (world : World κ ν ε) (event : Event κ ν ε) : World κ ν ε :=
  { world with history := event :: world.history }

def append (world : World κ ν ε) (id : QueueId) (step : Step κ) : World κ ν ε :=
  let agenda := world.agenda id
  (world.setAgenda id (agenda.append step)).record
    (.appended id (agenda.entry step) agenda.active.isSome)

def take (world : World κ ν ε) (id : QueueId) : World κ ν ε :=
  { world with queues := Queue.adjust (fun queue => { queue with taken := true }) world.queues id }

def settle (world : World κ ν ε) (id : QueueId) : World κ ν ε :=
  world.setAgenda id (world.agenda id).settle

@[simp] theorem agendaAfterSet (world : World κ ν ε) (id other : QueueId) (agenda : Agenda κ) :
    (world.setAgenda id agenda).agenda other =
      if other = id then agenda else world.agenda other := by
  simp only [World.agenda, World.queue, setAgenda, Queue.readAdjusted]
  split <;> rfl

@[simp] theorem agendaAfterRecord (world : World κ ν ε) (event : Event κ ν ε) (id : QueueId) :
    (world.record event).agenda id = world.agenda id := rfl

@[simp] theorem historyAfterSet (world : World κ ν ε) (id : QueueId) (agenda : Agenda κ) :
    (world.setAgenda id agenda).history = world.history := rfl

@[simp] theorem agendaAfterTake (world : World κ ν ε) (id other : QueueId) :
    (world.take id).agenda other = world.agenda other := by
  simp only [World.agenda, World.queue, take, Queue.readAdjusted]
  split
  · subst_vars; rfl
  · rfl

end World

end Sequencer
