import Sequencer.Recorder

/-! Everything that happened, one event each, and the log as a view of it. -/
namespace Sequencer

inductive Event (κ ν ε : Type) where
  | appended (queue : QueueId) (entry : Entry κ) (nested : Bool)
  | asked (queue : QueueId) (call : Call)
  | started (queue : QueueId) (run : Int) (queued : Nat)
  | activated (queue : QueueId) (entry : Entry κ) (info : StepInfo)
  | applied (queue : QueueId) (step : Int) (entry : Entry κ) (info : StepInfo) (input : ν)
  | settled (queue : QueueId) (info : StepInfo) (spliced : Nat) (result : Except RunError ν)
  | refused (queue : QueueId) (info : StepInfo) (error : RunError)
  | withdrawn (queue : QueueId) (remaining : List (Entry κ))
  | notified (queue : QueueId) (entry : Entry κ) (label : String) (error : RunError)
  | observerPanicked (label : String) (payload : Payload)
  | dropped (queue : QueueId) (count : Nat)
  | stepUnrecorded (queue : QueueId) (info : StepInfo) (failure : Failure)
  | runUnrecorded (queue : QueueId) (failure : Failure)
  | completed (queue : QueueId) (applied : UInt32) (value : ν)
  | failed (queue : QueueId) (error : RunError) (dropped : Nat)
  | noted (note : ε)

inductive Level where
  | warn
  | debug
  | trace
  deriving DecidableEq, Repr

namespace Level

def name : Level → String
  | .warn => "warn"
  | .debug => "debug"
  | .trace => "trace"

def rank : Level → Nat
  | .warn => 0
  | .debug => 1
  | .trace => 2

def keeps (level line : Level) : Bool :=
  line.rank ≤ level.rank

end Level

inductive Field where
  | text (value : String)
  | count (value : Nat)
  | flag (value : Bool)
  deriving DecidableEq, Repr

structure Line where
  level : Level
  message : String
  fields : List (String × Field)
  deriving DecidableEq, Repr

/- What the log says of an event, given the names of the queues. Nothing is said of a settled
step without discoveries, nor of a delivery that dropped no step. -/
def Event.line? (name : QueueId → String) : Event κ ν ε → Option Line
  | .appended queue entry nested => some
    ⟨.trace, "step appended",
      [("queue", .text (name queue)), ("kind", .text entry.kind.name), ("nested", .flag nested)]⟩
  | .started queue _ queued => some
    ⟨.debug, "run started", [("queue", .text (name queue)), ("queued", .count queued)]⟩
  | .applied queue _ _ info _ => some
    ⟨.debug, "applying step",
      [("queue", .text (name queue)), ("step", .text info.label),
        ("index", .count info.index.toNat), ("depth", .count info.depth.toNat)]⟩
  | .settled queue info spliced _ =>
    if spliced = 0 then none else some
      ⟨.trace, "spliced nested steps",
        [("queue", .text (name queue)), ("step", .text info.label), ("spliced", .count spliced)]⟩
  | .observerPanicked label payload => some
    ⟨.warn, "observer panicked", [("step", .text label), ("panic", .text payload.message)]⟩
  | .dropped queue count =>
    if count = 0 then none else some
      ⟨.debug, "dropped steps after failure",
        [("queue", .text (name queue)), ("dropped", .count count)]⟩
  | .stepUnrecorded queue info failure => some
    ⟨.warn, "failed to record step completion",
      [("queue", .text (name queue)), ("step", .text info.label), ("error", .text failure.text)]⟩
  | .runUnrecorded queue failure => some
    ⟨.warn, "failed to record run completion",
      [("queue", .text (name queue)), ("error", .text failure.text)]⟩
  | .completed queue total _ => some
    ⟨.debug, "run completed",
      [("queue", .text (name queue)), ("applied", .count total.toNat)]⟩
  | .failed queue error count => some
    ⟨.debug, "run failed",
      [("queue", .text (name queue)), ("error", .text error.text), ("dropped", .count count)]⟩
  | .asked _ _ | .activated _ _ _ | .refused _ _ _ | .withdrawn _ _ | .notified _ _ _ _
  | .noted _ => none

end Sequencer
