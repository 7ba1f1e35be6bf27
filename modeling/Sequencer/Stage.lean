import Sequencer.World

/-! Where a run stands while user code executes. Each `Stage` is one place at which the library
has called out; the code it waits for is a program whose answer has the stage's own type. -/
namespace Sequencer

/- A run that its recorder has admitted: `index` steps are applied so far. -/
structure Run where
  queue : QueueId
  id : Int
  index : UInt32
  deriving DecidableEq, Repr

inductive Verdict (ν : Type) where
  | completed (value : ν)
  | failed (error : RunError) (dropped : Nat)

namespace Verdict

def status (verdict : Verdict ν) (applied : UInt32) : RunStatus :=
  match verdict with
  | .completed _ => .completed applied
  | .failed error dropped => .failed error.text dropped

def result : Verdict ν → Except RunError ν
  | .completed value => .ok value
  | .failed error _ => .error error

end Verdict

structure Delivery where
  error : RunError
  -- The failing step with its id, unless the recorder refused its start.
  culprit : Option (Int × StepInfo)

inductive Stage (κ ν : Type) where
  | outside
  | startingRun (queue : QueueId) (value : ν)
  | startingStep (run : Run) (value : ν) (entry : Entry κ) (info : StepInfo)
  | applying (run : Run) (step : Int) (info : StepInfo)
  -- In the code of an async step, which has not given its program yet.
  | calling (run : Run) (step : Int) (info : StepInfo)
  -- In the program an async step has given.
  | awaiting (run : Run) (step : Int) (info : StepInfo)
  | observing (run : Run) (step : Int) (info : StepInfo) (value : ν)
  -- In an observer told of a failure, with the steps that come after it: the first of them stands
  -- at `index`, and `dropped` were passed over so far.
  | delivering (run : Run) (delivery : Delivery) (label : String) (rest : List (Entry κ))
      (index : UInt32) (dropped : Nat)
  | completingStep (run : Run) (info : StepInfo) (verdict : Verdict ν)
  | completingRun (run : Run) (verdict : Verdict ν)

namespace Stage

abbrev Answer (ε : Type) : Stage κ ν → Type
  | .startingRun _ _ | .startingStep _ _ _ _ => Int
  | .calling _ _ _ => Program κ ν ε ν
  | .applying _ _ _ | .awaiting _ _ _ => ν
  | .outside | .observing _ _ _ _ | .delivering _ _ _ _ _ _ | .completingStep _ _ _
  | .completingRun _ _ => Unit

def awaits : Stage κ ν → Bool
  | .startingRun _ _ | .startingStep _ _ _ _ | .awaiting _ _ _ | .completingStep _ _ _
  | .completingRun _ _ => true
  | .outside | .applying _ _ _ | .calling _ _ _ | .observing _ _ _ _
  | .delivering _ _ _ _ _ _ => false

def queue? : Stage κ ν → Option QueueId
  | .outside => none
  | .startingRun queue _ => some queue
  | .startingStep run _ _ _ | .applying run _ _ | .calling run _ _ | .awaiting run _ _
  | .observing run _ _ _ | .delivering run _ _ _ _ _ | .completingStep run _ _
  | .completingRun run _ => some run.queue

end Stage

inductive Ending (β : Type) where
  | returned (answer : β)
  | failed (failure : Failure)
  | panicked (payload : Payload)

def Ending.result (label : String) : Ending β → Except RunError β
  | .returned answer => .ok answer
  | .failed failure => .error (.stepFailed label failure)
  | .panicked payload => .error (.stepPanicked label payload.message)

structure Frame (κ ν ε : Type) where
  stage : Stage κ ν
  code : Program κ ν ε (stage.Answer ε)

structure Caller (κ ν ε : Type) where
  stage : Stage κ ν
  resume : Option (Except RunError ν) → Program κ ν ε (stage.Answer ε)

inductive Turn (κ ν ε : Type) where
  | enter (frame : Frame κ ν ε)
  | returned (result : Except RunError ν)
  | unwound (payload : Payload)
  | left

end Sequencer
