import Sequencer.Stage

/-! What the library does between two pieces of user code. Each function takes the world as the
last piece left it and says how the world goes on and what is called next. -/
namespace Sequencer.Scheduler

variable (behaviour : Behaviour κ ν ε)

def startRun (world : World κ ν ε) (queue : QueueId) (value : ν) : World κ ν ε × Frame κ ν ε :=
  let name := world.nameOf queue
  (world.record (.asked queue (.startRun name)),
    ⟨.startingRun queue value, (behaviour.recorder queue).startRun name⟩)

def completeRun (world : World κ ν ε) (run : Run) (verdict : Verdict ν) :
    World κ ν ε × Turn κ ν ε :=
  let status := verdict.status run.index
  (world.record (.asked run.queue (.completeRun run.id status)),
    .enter ⟨.completingRun run verdict, (behaviour.recorder run.queue).completeRun run.id status⟩)

def proceed (world : World κ ν ε) (run : Run) (value : ν) : World κ ν ε × Turn κ ν ε :=
  match (world.agenda run.queue).activate run.index with
  | none => completeRun behaviour world run (.completed value)
  | some (entry, agenda) =>
    let info := entry.info run.index
    (((world.setAgenda run.queue agenda).record (.activated run.queue entry info)).record
        (.asked run.queue (.startStep run.id info)),
      .enter ⟨.startingStep run value entry info,
        (behaviour.recorder run.queue).startStep run.id info⟩)

def apply (world : World κ ν ε) (run : Run) (step : Int) (value : ν) (entry : Entry κ)
    (info : StepInfo) : World κ ν ε × Turn κ ν ε :=
  (world.record (.applied run.queue step entry info value),
    .enter <| match entry.kind with
      | .value => ⟨.applying run step info, behaviour.body entry.code run.queue value⟩
      | .async => ⟨.calling run step info, behaviour.call entry.code run.queue value⟩
      | .observer =>
        ⟨.observing run step info value, behaviour.watch entry.code run.queue (.ok value)⟩)

def completeStep (world : World κ ν ε) (run : Run) (step : Int) (info : StepInfo)
    (status : StepStatus) (verdict : Verdict ν) : World κ ν ε × Turn κ ν ε :=
  (world.record (.asked run.queue (.completeStep step status)),
    .enter ⟨.completingStep run info verdict,
      (behaviour.recorder run.queue).completeStep info step status⟩)

/- Every waiting step has been told or passed over. A step whose start was refused counts as
dropped as well. -/
def delivered (world : World κ ν ε) (run : Run) (delivery : Delivery) (dropped : Nat) :
    World κ ν ε × Turn κ ν ε :=
  let world := world.record (.dropped run.queue dropped)
  match delivery.culprit with
  | some (step, info) =>
    completeStep behaviour world run step info (.failed delivery.error.text)
      (.failed delivery.error dropped)
  | none => completeRun behaviour world run (.failed delivery.error (dropped + 1))

def deliver (world : World κ ν ε) (run : Run) (delivery : Delivery) :
    List (Entry κ) → (index : UInt32) → (dropped : Nat) → World κ ν ε × Turn κ ν ε
  | [], _, dropped => delivered behaviour world run delivery dropped
  | entry :: rest, index, dropped =>
    if entry.isObserver then
      let label := entry.label index
      (world.record (.notified run.queue entry label delivery.error),
        .enter ⟨.delivering run delivery label rest (index + 1) dropped,
          behaviour.watch entry.code run.queue (.error delivery.error)⟩)
    else deliver world run delivery rest (index + 1) (dropped + 1)

def withdraw (world : World κ ν ε) (run : Run) (delivery : Delivery) (index : UInt32) :
    World κ ν ε × Turn κ ν ε :=
  let (remaining, agenda) := (world.agenda run.queue).takeRemaining
  deliver behaviour ((world.setAgenda run.queue agenda).record (.withdrawn run.queue remaining))
    run delivery remaining index 0

def settle (world : World κ ν ε) (run : Run) (step : Int) (info : StepInfo)
    (result : Except RunError ν) : World κ ν ε × Turn κ ν ε :=
  let spliced := (world.agenda run.queue).found.size
  let world := (world.settle run.queue).record (.settled run.queue info spliced result)
  let run := { run with index := run.index + 1 }
  match result with
  | .ok value => completeStep behaviour world run step info (.completed spliced) (.completed value)
  | .error error => withdraw behaviour world run ⟨error, some (step, info)⟩ run.index

def refuse (world : World κ ν ε) (run : Run) (info : StepInfo) (error : RunError) :
    World κ ν ε × Turn κ ν ε :=
  withdraw behaviour ((world.settle run.queue).record (.refused run.queue info error)) run
    ⟨error, none⟩ (run.index + 1)

/- The completion of a step is recorded, or could not be; either way the verdict stands. -/
def stepCompleted (world : World κ ν ε) (run : Run) (verdict : Verdict ν) :
    World κ ν ε × Turn κ ν ε :=
  match verdict with
  | .completed value => proceed behaviour world run value
  | .failed _ _ => completeRun behaviour world run verdict

def runCompleted (world : World κ ν ε) (run : Run) (verdict : Verdict ν) :
    World κ ν ε × Turn κ ν ε :=
  (world.record <| match verdict with
    | .completed value => .completed run.queue run.index value
    | .failed error dropped => .failed run.queue error dropped,
    .returned verdict.result)

/-- Goes on from a stage whose code has ended. A failing observer has no one to report to; a
panicking one is noted. A panic of a recorder leaves the run as it stands. -/
def conclude (world : World κ ν ε) :
    (stage : Stage κ ν) → Ending (stage.Answer ε) → World κ ν ε × Turn κ ν ε
  | .outside, .panicked payload => (world, .unwound payload)
  | .outside, _ => (world, .left)
  | .startingRun queue value, .returned run =>
    proceed behaviour (world.record (.started queue run (world.agenda queue).len))
      ⟨queue, run, 0⟩ value
  | .startingRun _ _, .failed failure => (world, .returned (.error (.recorder failure)))
  | .startingRun _ _, .panicked payload => (world, .unwound payload)
  | .startingStep run value entry info, .returned step =>
    apply behaviour world run step value entry info
  | .startingStep run _ _ info, .failed failure =>
    refuse behaviour world run info (.recorder failure)
  | .startingStep _ _ _ _, .panicked payload => (world, .unwound payload)
  | .applying run step info, ending =>
    settle behaviour world run step info (ending.result info.label)
  | .calling run step info, .returned program =>
    (world, .enter ⟨.awaiting run step info, program⟩)
  | .calling run step info, .failed failure =>
    settle behaviour world run step info (.error (.stepFailed info.label failure))
  | .calling run step info, .panicked payload =>
    settle behaviour world run step info (.error (.stepPanicked info.label payload.message))
  | .awaiting run step info, ending =>
    settle behaviour world run step info (ending.result info.label)
  | .observing run step info value, .panicked payload =>
    settle behaviour (world.record (.observerPanicked info.label payload)) run step info
      (.ok value)
  | .observing run step info value, _ => settle behaviour world run step info (.ok value)
  | .delivering run delivery label rest index dropped, .panicked payload =>
    deliver behaviour (world.record (.observerPanicked label payload)) run delivery rest index
      dropped
  | .delivering run delivery _ rest index dropped, _ =>
    deliver behaviour world run delivery rest index dropped
  | .completingStep run _ verdict, .returned _ => stepCompleted behaviour world run verdict
  | .completingStep run info verdict, .failed failure =>
    stepCompleted behaviour (world.record (.stepUnrecorded run.queue info failure)) run verdict
  | .completingStep _ _ _, .panicked payload => (world, .unwound payload)
  | .completingRun run verdict, .returned _ => runCompleted world run verdict
  | .completingRun run verdict, .failed failure =>
    runCompleted (world.record (.runUnrecorded run.queue failure)) run verdict
  | .completingRun _ _, .panicked payload => (world, .unwound payload)

end Sequencer.Scheduler
