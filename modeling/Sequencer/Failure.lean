import Sequencer.Text.Record

/-! What can go wrong. A `Failure` is what user code ends with: a message, wrapped in any number
of contexts, or the error of another run. A `RunError` is what a run ends with. Both keep every
level of the cause; `chain` lists the levels from the outermost one inwards. -/
namespace Sequencer

inductive Payload where
  | text (message : String)
  | other
  deriving DecidableEq, Repr

def Payload.message : Payload → String
  | .text message => message
  | .other => "non-string panic payload"

mutual
inductive Failure where
  | message (text : String)
  | context (text : String) (cause : Failure)
  | run (error : RunError)

inductive RunError where
  | stepFailed (step : String) (cause : Failure)
  | stepPanicked (step : String) (message : String)
  | recorder (cause : Failure)
end

mutual
def Failure.text : Failure → String
  | .message text => text
  | .context text _ => text
  | .run error => error.text

def RunError.text : RunError → String
  | .stepFailed step cause => "step '" ++ step ++ "' failed: " ++ cause.text
  | .stepPanicked step message => "step '" ++ step ++ "' panicked: " ++ message
  | .recorder cause => "recorder error: " ++ cause.text
end

mutual
/- Every level, outermost first. The error of another run is one level, then come its sources. -/
def Failure.chain : Failure → List String
  | .message text => [text]
  | .context text cause => text :: cause.chain
  | .run error => error.text :: error.sources

def RunError.sources : RunError → List String
  | .stepFailed _ cause => cause.chain
  | .stepPanicked _ _ => []
  | .recorder cause => cause.chain
end

def Failure.within (failure : Failure) (contexts : List String) : Failure :=
  contexts.foldl (fun cause text => .context text cause) failure

namespace RunError

def step? : RunError → Option String
  | .stepFailed step _ => some step
  | .stepPanicked step _ => some step
  | .recorder _ => none

def isPanic : RunError → Bool
  | .stepPanicked _ _ => true
  | _ => false

/- Only a panic is shown in full; the other errors end in a cause that has no such form. -/
def debug? : RunError → Option String
  | .stepPanicked step message =>
    some (Text.braced "StepPanicked" [("step", Text.quoted step), ("message", Text.quoted message)])
  | _ => none

end RunError

end Sequencer
