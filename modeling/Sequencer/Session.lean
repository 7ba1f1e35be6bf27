import Sequencer.Machine
import Sequencer.Script.Play

/-! A session: some queues and a list of operations on them from outside. A run is polled by
hand; between two polls the outside may act on the queue. -/
namespace Sequencer
open Script

structure Setup where
  shape : Shape
  queues : List (String × Option RecorderScript)
  level : Option Level := none

structure Polling where
  limit : Option Nat := none
  between : List (Nat × List Action) := []

inductive Operation where
  | push (queue : QueueId) (specs : List Spec) (viaHandle : Bool)
  | state (queue : QueueId)
  | run (queue : QueueId) (initial : Option Datum) (polling : Polling)

inductive Closing where
  | ended (outcome : Outcome Datum)
  | cancelled
  | exhausted

inductive Reply where
  | len (len : Nat)
  | consumed
  | badValue (failure : Failure)
  | state (queue : Queue Spec)
  | ran (closing : Closing) (polls : Nat)

inductive Report where
  | note (note : Note)
  | line (line : Line)

abbrev Session := World Spec Datum Note

namespace Setup

def recorders (setup : Setup) (queue : QueueId) : Option RecorderScript :=
  setup.queues[queue]?.bind Prod.snd

def behaviour (setup : Setup) : Behaviour Spec Datum Note :=
  Script.behaviour setup.shape setup.recorders

def start (setup : Setup) : Session where
  queues := setup.queues.map fun queue => { name := queue.1 }
  history := []

def report? (setup : Setup) (name : QueueId → String) : Event Spec Datum Note → Option Report
  | .noted note => some (.note note)
  | event => do
    let level ← setup.level
    let line ← event.line? name
    if level.keeps line.level then some (.line line) else none

end Setup

namespace Session

def interject (setup : Setup) (fuel : Nat) (queue : QueueId) (actions : List Action)
    (session : Session) : Session :=
  let code := (playAll setup.shape queue actions none).bind fun _ => .done ()
  match (Machine.outside session code).poll setup.behaviour fuel with
  | .ended world _ => world
  | .running machine | .suspended machine => machine.world

def drive (setup : Setup) (fuel : Nat) (queue : QueueId) (polling : Polling) :
    (rounds polls : Nat) → Machine Spec Datum Note → Session × Closing × Nat
  | 0, polls, machine => (machine.world, .exhausted, polls)
  | rounds + 1, polls, machine =>
    match machine.poll setup.behaviour fuel with
    | .running machine => (machine.world, .exhausted, polls + 1)
    | .ended session outcome => (session, .ended outcome, polls + 1)
    | .suspended machine =>
      let actions := (polling.between.lookup (polls + 1)).getD []
      let session := interject setup fuel queue actions machine.world
      if polling.limit = some (polls + 1) then (session, .cancelled, polls + 1)
      else drive setup fuel queue polling rounds (polls + 1) { machine with world := session }

/- Runs a queue that was taken. A run that is never polled never starts. -/
def run (setup : Setup) (fuel : Nat) (session : Session) (queue : QueueId)
    (initial : Option Datum) (polling : Polling) : Session × Reply :=
  if polling.limit = some 0 then (session, .ran .cancelled 0)
  else
    let machine := Machine.start setup.behaviour session [] queue initial
    let (session, closing, polls) := drive setup fuel queue polling fuel 0 machine
    (session, .ran closing polls)

def perform (setup : Setup) (fuel : Nat) (session : Session) : Operation → Session × Reply
  | .push queue specs viaHandle =>
    if (session.queue queue).taken && !viaHandle then (session, .consumed)
    else
      let session := (Spec.steps specs).foldl (fun world step => world.append queue step) session
      (session, .len (session.agenda queue).len)
  | .state queue => (session, .state (session.queue queue))
  | .run queue initial polling =>
    if (session.queue queue).taken then (session, .consumed)
    else
      match initial.map setup.shape.check with
      | some (.error failure) => (session.take queue, .badValue failure)
      | _ => run setup fuel (session.take queue) queue initial polling

def reports (setup : Setup) (before after : Session) : List Report :=
  let events := after.history.take (after.history.length - before.history.length)
  events.reverse.filterMap (setup.report? after.nameOf)

def play (setup : Setup) (fuel : Nat) (session : Session) :
    List Operation → List (Reply × List Report)
  | [] => []
  | operation :: rest =>
    let (after, reply) := session.perform setup fuel operation
    (reply, reports setup session after) :: after.play setup fuel rest

end Session

end Sequencer
