import Sequencer.Proofs.Execution
import Sequencer.Proofs.Place
import Sequencer.Proofs.Recoding

/-! Inlining. One step no longer queues what it finds; its discoveries are queued with it instead,
right behind it, by whoever queues the step itself. To tell that step from all others, every step on
the queue knows its place in the forest of discoveries, and hands places on to those it finds. -/
namespace Sequencer

variable {κ ν ε β γ : Type}

def Step.placed (place : Place) (step : Step κ) : Step (κ × Place) :=
  step.recode (·, place)

structure Inlining (κ : Type) where
  queue : QueueId
  target : Place
  found : List (Step κ)

namespace Inlining

variable (plan : Inlining κ)

def discoveries (steps : List (Step κ)) : List (Step (κ × Place)) :=
  steps.mapIdx fun n step => step.placed (plan.target ++ [n])

def lay (place : Place) (step : Step κ) : List (Step (κ × Place)) :=
  step.placed place :: if place = plan.target then plan.discoveries plan.found else []

/- What the code of a finder queues where it queued a step before, as the `n`th on the queue. Code
that is not of a step on the queue has no place there. -/
def put (finder : Option Place) (queue : QueueId) (n : Nat) (step : Step κ) :
    List (Step (κ × Place)) :=
  match finder with
  | none => [step.placed []]
  | some place =>
    if queue = plan.queue then
      if place = plan.target then [] else plan.lay (place ++ [n]) step
    else [step.placed []]

def finder (queue : QueueId) (place : Place) : Option Place :=
  if queue = plan.queue then some place else none

end Inlining

def Program.inline (plan : Inlining κ) (finder : Option Place) (finish : Nat → β → γ) :
    Program κ ν ε β → (n : Nat) → Program (κ × Place) ν ε γ
  | done answer, n => done (finish n answer)
  | fail failure, _ => fail failure
  | panic payload, _ => panic payload
  | append queue step next, n =>
    appendAll queue (plan.put finder queue n step)
      (next.inline plan finder finish (if queue = plan.queue then n + 1 else n))
  | ask queue next, n => ask queue fun status => (next status).inline plan finder finish n
  | look queue next, n => look queue fun snapshot => (next snapshot).inline plan finder finish n
  | note remark next, n => note remark (next.inline plan finder finish n)
  | suspend next, n => suspend (next.inline plan finder finish n)
  | discard queue next, n => discard queue fun taken => (next taken).inline plan finder finish n
  | run queue initial next, n =>
    run queue initial fun result => (next result).inline plan finder finish n

/- The program that an async step gives goes on counting where the call has stopped. -/
def Behaviour.inlined (plan : Inlining κ) (behaviour : Behaviour κ ν ε) :
    Behaviour (κ × Place) ν ε where
  neutral := behaviour.neutral
  body code queue value :=
    (behaviour.body code.1 queue value).inline plan (plan.finder queue code.2)
      (fun _ answer => answer) 0
  call code queue value :=
    (behaviour.call code.1 queue value).inline plan (plan.finder queue code.2)
      (fun n program => program.inline plan (plan.finder queue code.2) (fun _ answer => answer) n) 0
  watch code queue result :=
    (behaviour.watch code.1 queue result).inline plan (plan.finder queue code.2)
      (fun _ answer => answer) 0
  recorder queue := (behaviour.recorder queue).recode (·, [])

def Agenda.inlined (plan : Inlining κ) (agenda : Agenda κ) : Agenda (κ × Place) :=
  (agenda.pipeline.mapIdx fun n entry => plan.lay [n] entry.toStep).flatten.foldl Agenda.append {}

def World.inlined (plan : Inlining κ) (world : World κ ν ε) : World (κ × Place) ν ε :=
  (world.recode (·, [])).setAgenda plan.queue ((world.agenda plan.queue).inlined plan)

def Stage.works (queue : QueueId) : Stage κ ν → Bool
  | .applying run _ _ | .calling run _ _ | .awaiting run _ _ | .observing run _ _ _ =>
    run.queue = queue
  | _ => false

def Stage.records (queue : QueueId) : Stage κ ν → Bool
  | .startingRun id _ => id = queue
  | .startingStep run _ _ _ | .completingStep run _ _ | .completingRun run _ => run.queue = queue
  | _ => false

def Machine.Calm (queue : QueueId) (machine : Machine κ ν ε) : Prop :=
  match machine.frame.code with
  | .append id _ _ => id = queue → machine.frame.stage.works queue = true
  | .ask id _ | .look id _ => id = queue → machine.frame.stage.records queue = true
  | _ => True

def StepInfo.shallow (info : StepInfo) : StepInfo := { info with depth := 0 }

def Entry.bare (entry : Entry κ) : Entry κ := { entry with depth := 0, ticket := 0 }

def Call.shallow : Call → Call
  | .startRun name => .startRun name
  | .startStep _ info => .startStep 0 info.shallow
  | .completeStep _ (.completed _) => .completeStep 0 (.completed 0)
  | .completeStep _ (.failed error) => .completeStep 0 (.failed error)
  | .completeRun _ status => .completeRun 0 status

/- An event of the queue without depths, tickets and ids, and without the numbers of queued and
spliced steps. Not told are its appends, completions that its recorder could not record, and
remarks no one heeds. -/
def Event.flat : Event κ ν ε → Option (Event κ ν ε)
  | .appended _ _ _ | .stepUnrecorded _ _ _ | .runUnrecorded _ _ => none
  | .asked queue call => some (.asked queue call.shallow)
  | .started queue _ _ => some (.started queue 0 0)
  | .activated queue entry info => some (.activated queue entry.bare info.shallow)
  | .applied queue _ entry info input => some (.applied queue 0 entry.bare info.shallow input)
  | .settled queue info _ result => some (.settled queue info.shallow 0 result)
  | .refused queue info error => some (.refused queue info.shallow error)
  | .withdrawn queue remaining => some (.withdrawn queue (remaining.map Entry.bare))
  | .notified queue entry label error => some (.notified queue entry.bare label error)
  | event => some event

def Event.flatten (heard : ε → Bool) (queue : QueueId) (event : Event κ ν ε) :
    Option (Event κ ν ε) :=
  match event with
  | .noted remark => if heard remark then some (.noted remark) else none
  | event => if event.queue? = some queue then event.flat else some event

end Sequencer
