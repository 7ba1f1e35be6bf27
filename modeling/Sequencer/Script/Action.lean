import Sequencer.Script.Datum
import Sequencer.Recorder

/-! Scripts: what step bodies, observers, recorder callbacks and outside code do, as data. A
`Spec` describes a step together with the actions of its code. -/
namespace Sequencer.Script

inductive Form where
  | value
  | nested
  | void
  | constant
  | future
  | futureNested
  | observer
  deriving DecidableEq, Repr

def Form.kind : Form → Kind
  | .value | .nested | .void | .constant => .value
  | .future | .futureNested => .async
  | .observer => .observer

inductive Finish where
  | describe (text : String)
  | hook
  deriving DecidableEq, Repr

def Finish.apply (step : Step κ) : Finish → Step κ
  | .describe text => step.describe text
  | .hook => step.onFailure

mutual
/- Where an action may name a queue and does not, it is about the queue its code belongs to. -/
inductive Action where
  | push (queue : Option QueueId) (steps : List Spec)
  | state (queue : Option QueueId)
  | snapshot (queue : Option QueueId)
  | note (text : String)
  | yield (times : Nat)
  | fail (message : String) (contexts : List String)
  | panic (payload : Payload)
  | subrun (queue : QueueId) (initial : Option Datum)
  -- At 0 plays `leaf` in place, for the queue it names. Above it pushes one step that plays
  -- `each` and then `width` times the same cascade one lower.
  | recurse (queue : Option QueueId) (height width : Nat) (form : Form) (label : Option String)
      (quiet : Bool) (each leaf : List Action)
  | edit (edit : Edit)

inductive Spec where
  | mk (form : Form) (id : Datum) (quiet : Bool) (times : Nat) (finishes : List Finish)
      (value : Option Datum) (pre : Option (List Action)) (body onError : List Action)
end

namespace Spec

def form : Spec → Form
  | mk form .. => form

def id : Spec → Datum
  | mk _ id .. => id

def quiet : Spec → Bool
  | mk _ _ quiet .. => quiet

def times : Spec → Nat
  | mk _ _ _ times .. => times

def finishes : Spec → List Finish
  | mk _ _ _ _ finishes .. => finishes

def value : Spec → Option Datum
  | mk _ _ _ _ _ value .. => value

def pre : Spec → Option (List Action)
  | mk _ _ _ _ _ _ pre .. => pre

def body : Spec → List Action
  | mk _ _ _ _ _ _ _ body _ => body

def onError : Spec → List Action
  | mk _ _ _ _ _ _ _ _ onError => onError

def step (spec : Spec) : Step Spec :=
  spec.finishes.foldl Finish.apply { kind := spec.form.kind, code := spec }

theorem stepKept (spec : Spec) : spec.step.kind = spec.form.kind ∧ spec.step.code = spec := by
  unfold step
  generalize plain : ({ kind := spec.form.kind, code := spec } : Step Spec) = start
  have kept : start.kind = spec.form.kind ∧ start.code = spec := by simp [← plain]
  clear plain
  induction spec.finishes generalizing start with
  | nil => exact kept
  | cons finish rest ih => exact ih (finish.apply start) (by cases finish <;> exact kept)

def steps (specs : List Spec) : List (Step Spec) :=
  specs.flatMap fun spec => List.replicate spec.times spec.step

end Spec

def cascade (queue : Option QueueId) (height width : Nat) (form : Form) (label : Option String)
    (quiet : Bool) (each leaf : List Action) : Spec :=
  .mk form (.number (height + 1)) quiet 1
    (label.toList.map fun label => .describe (label ++ toString (height + 1))) none none
    (each ++ List.replicate width (.recurse queue height width form label quiet each leaf)) []

structure Table where
  calls : List (Nat × List Action) := []
  otherwise : List Action := []

def Table.actions (table : Table) (call : Nat) : List Action :=
  (table.calls.lookup call).getD table.otherwise

structure RecorderScript where
  run : Int := 0
  -- The id of a step is this number and the step's index.
  step : Int := 0
  startRun : Table := {}
  startStep : Table := {}
  completeStep : Table := {}
  completeRun : Table := {}

end Sequencer.Script
