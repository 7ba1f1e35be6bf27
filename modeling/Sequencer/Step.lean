import Sequencer.Text.Record

/-! Steps. A step carries its code as data of a type `κ`; what the code does is given apart from
the step, so steps can be stored, compared and counted. An `Entry` is a step that has been
placed on a queue and knows its depth. -/
namespace Sequencer

inductive Kind where
  | value
  | async
  | observer
  deriving DecidableEq, Repr

def Kind.name : Kind → String
  | .value => "value"
  | .async => "async"
  | .observer => "observer"

structure Step (κ : Type) where
  kind : Kind
  code : κ
  description : Option String := none
  -- A hook is kept with the step and never called.
  failureHook : Bool := false
  deriving DecidableEq, Repr

namespace Step

def describe (step : Step κ) (text : String) : Step κ :=
  { step with description := some text }

def onFailure (step : Step κ) : Step κ :=
  { step with failureHook := true }

def isObserver (step : Step κ) : Bool :=
  step.kind == .observer

def label (step : Step κ) (index : UInt32) : String :=
  step.description.getD (step.kind.name ++ " step #" ++ toString index.toNat)

end Step

/- A step on a queue. Two steps with the same code are still two steps: the ticket, which counts
the steps appended to the queue before it, tells them apart. -/
structure Entry (κ : Type) extends Step κ where
  -- 0 for a step queued while nothing was active; a discovery is one deeper than the step that
  -- was active when it was found.
  depth : UInt32
  ticket : Nat
  deriving DecidableEq, Repr

def Step.debug (step : Step κ) : String :=
  Text.braced "Step" [
    ("kind", Text.quoted step.kind.name),
    ("description", Text.optional Text.quoted step.description),
    ("failure_hook", if step.failureHook then "true" else "false"),
    ("depth", "0")]

structure StepInfo where
  label : String
  kind : String
  index : UInt32
  depth : UInt32
  deriving DecidableEq, Repr

namespace StepInfo

def isNested (info : StepInfo) : Bool :=
  decide (0 < info.depth)

def debug (info : StepInfo) : String :=
  Text.braced "StepInfo" [
    ("label", Text.quoted info.label),
    ("kind", Text.quoted info.kind),
    ("index", toString info.index.toNat),
    ("depth", toString info.depth.toNat)]

end StepInfo

def Entry.info (entry : Entry κ) (index : UInt32) : StepInfo :=
  ⟨entry.label index, entry.kind.name, index, entry.depth⟩

end Sequencer
