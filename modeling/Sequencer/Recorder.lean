import Sequencer.Program

/-! The recorder of a queue: four callbacks around a run and around each applied step. A start
gives an id that the later calls carry. -/
namespace Sequencer

inductive StepStatus where
  | completed (spliced : Nat)
  | failed (error : String)
  deriving DecidableEq, Repr

inductive RunStatus where
  | completed (applied : UInt32)
  | failed (error : String) (dropped : Nat)
  deriving DecidableEq, Repr

structure Recorder (κ ν ε : Type) where
  startRun : (queue : String) → Program κ ν ε Int
  startStep : (run : Int) → StepInfo → Program κ ν ε Int
  -- The step is the one that the last `startStep` was about.
  completeStep : StepInfo → (step : Int) → StepStatus → Program κ ν ε Unit
  completeRun : (run : Int) → RunStatus → Program κ ν ε Unit

def Recorder.silent : Recorder κ ν ε where
  startRun _ := .done 0
  startStep _ _ := .done 0
  completeStep _ _ _ := .done ()
  completeRun _ _ := .done ()

inductive Call where
  | startRun (queue : String)
  | startStep (run : Int) (info : StepInfo)
  | completeStep (step : Int) (status : StepStatus)
  | completeRun (run : Int) (status : RunStatus)
  deriving DecidableEq, Repr

/- What the code of steps does. The queue is the one the step stands on. -/
structure Behaviour (κ ν ε : Type) where
  neutral : ν
  body : κ → QueueId → ν → Program κ ν ε ν
  -- Calling the code of an async step gives the program to wait for.
  call : κ → QueueId → ν → Program κ ν ε (Program κ ν ε ν)
  watch : κ → QueueId → Except RunError ν → Program κ ν ε Unit
  recorder : QueueId → Recorder κ ν ε

end Sequencer
