import Sequencer.Script.Action

/-! What scripts do. Playing a list of actions threads the current value, if there is one; the
first failure or panic ends the list. Everything a script sees is left as a `Note`. -/
namespace Sequencer.Script

inductive Note where
  | entered (id input : Datum)
  | called (id input : Datum)
  | observed (id : Datum) (sight : Except RunError Datum)
  | state (status : Status)
  | snapshot (snapshot : Snapshot)
  | text (text : String)
  | recorder (call : Call)

abbrev Play := Program Spec Datum Note

def pause : Nat → Play β → Play β
  | 0, next => next
  | n + 1, next => .suspend (pause n next)

/- Runs a queue and goes on with its value. A queue that was taken before is a failure, and so
is an initial value that does not fit; the queue is gone in any case. -/
def subrun (shape : Shape) (queue : QueueId) (initial : Option Datum) : Play Datum :=
  let consumed := Failure.message "queue already consumed"
  match initial.map shape.check with
  | some (.error failure) =>
    .discard queue fun taken => .fail (if taken then failure else consumed)
  | some (.ok _) | none =>
    .run queue initial fun
      | some (.ok value) => .done value
      | some (.error error) => .fail (.run error)
      | none => .fail consumed

mutual
def Action.play (shape : Shape) (home : QueueId) (value : Option Datum) :
    Action → Play (Option Datum)
  | .push queue specs => .appendAll (queue.getD home) (Spec.steps specs) (.done value)
  | .state queue => .ask (queue.getD home) fun seen => .note (.state seen) (.done value)
  | .snapshot queue => .look (queue.getD home) fun seen => .note (.snapshot seen) (.done value)
  | .note text => .note (.text text) (.done value)
  | .yield times => pause times (.done value)
  | .fail message contexts => .fail ((Failure.message message).within contexts)
  | .panic payload => .panic payload
  | .subrun queue initial =>
    (subrun shape queue initial).bind fun result => .done (value.map fun _ => result)
  | .recurse queue 0 _ _ _ _ _ leaf => playAll shape (queue.getD home) leaf value
  | .recurse queue (height + 1) width form label quiet each leaf =>
    .append (queue.getD home) (cascade queue height width form label quiet each leaf).step
      (.done value)
  | .edit edit =>
    match value with
    | none => .done none
    | some value =>
      match edit.apply value >>= shape.check with
      | .ok value => .done (some value)
      | .error failure => .fail failure

def playAll (shape : Shape) (home : QueueId) : List Action → Option Datum → Play (Option Datum)
  | [], value => .done value
  | action :: rest, value => (action.play shape home value).bind (playAll shape home rest)
end

namespace Spec

def noteUnless (quiet : Bool) (note : Note) (next : Play β) : Play β :=
  if quiet then next else .note note next

def transform (shape : Shape) (home : QueueId) (actions : List Action) (value : Datum) :
    Play Datum :=
  (playAll shape home actions (some value)).bind fun result => .done (result.getD shape.neutral)

def enter (spec : Spec) (shape : Shape) (home : QueueId) (value : Datum) : Play Datum :=
  noteUnless spec.quiet (.entered spec.id value) (transform shape home spec.body value)

def run (spec : Spec) (shape : Shape) (home : QueueId) (value : Datum) : Play Datum :=
  match spec.form with
  | .constant => .done (spec.value.getD shape.neutral)
  | .void => (spec.enter shape home value).bind fun _ => .done shape.neutral
  | _ => spec.enter shape home value

def call (spec : Spec) (shape : Shape) (home : QueueId) (value : Datum) : Play (Play Datum) :=
  match spec.pre with
  | none => .done (spec.enter shape home value)
  | some actions =>
    noteUnless spec.quiet (.called spec.id value)
      ((transform shape home actions value).bind fun value =>
        .done (spec.enter shape home value))

def watch (spec : Spec) (shape : Shape) (home : QueueId) (sight : Except RunError Datum) :
    Play Unit :=
  noteUnless spec.quiet (.observed spec.id sight) <|
    (playAll shape home (match sight with | .ok _ => spec.body | .error _ => spec.onError)
      none).bind fun _ => .done ()

end Spec

def RecorderScript.reply (shape : Shape) (home : QueueId) (call : Call) (actions : List Action)
    (answer : β) : Play β :=
  .note (.recorder call) ((playAll shape home actions none).bind fun _ => .done answer)

def RecorderScript.recorder (script : RecorderScript) (shape : Shape) (home : QueueId) :
    Recorder Spec Datum Note where
  startRun queue := reply shape home (.startRun queue) (script.startRun.actions 0) script.run
  startStep run info := reply shape home (.startStep run info)
    (script.startStep.actions info.index.toNat) (script.step + info.index.toNat)
  completeStep info step status := reply shape home (.completeStep step status)
    (script.completeStep.actions info.index.toNat) ()
  completeRun run status := reply shape home (.completeRun run status)
    (script.completeRun.actions 0) ()

def behaviour (shape : Shape) (recorders : QueueId → Option RecorderScript) :
    Behaviour Spec Datum Note where
  neutral := shape.neutral
  body spec := spec.run shape
  call spec := spec.call shape
  watch spec := spec.watch shape
  recorder queue :=
    match recorders queue with
    | some script => script.recorder shape queue
    | none => .silent

end Sequencer.Script
