import Sequencer.Lane
import Sequencer.Step

/-! The waiting steps of one queue. While a step is active, appended steps collect in a buffer;
settling puts them in front of the pipeline, so a step's discoveries run right after it. -/
namespace Sequencer

structure Active where
  index : UInt32
  label : String
  depth : UInt32
  deriving DecidableEq, Repr

structure Agenda (κ : Type) where
  waiting : Lane (Entry κ) := .empty
  found : Lane (Entry κ) := .empty
  active : Option Active := none
  arrivals : Nat := 0
  deriving DecidableEq

namespace Agenda

def pipeline (agenda : Agenda κ) : List (Entry κ) :=
  agenda.waiting.toList

def buffer (agenda : Agenda κ) : List (Entry κ) :=
  agenda.found.toList

/- What waits, in the order in which it would run if the active step settled now. -/
def pending (agenda : Agenda κ) : List (Entry κ) :=
  agenda.buffer ++ agenda.pipeline

def len (agenda : Agenda κ) : Nat :=
  agenda.waiting.size + agenda.found.size

theorem lengthOfPending (agenda : Agenda κ) : agenda.pending.length = agenda.len := by
  simp [pending, len, pipeline, buffer, Lane.lengthOfList, Nat.add_comm]

def depth (agenda : Agenda κ) : UInt32 :=
  match agenda.active with
  | some active => active.depth + 1
  | none => 0

def entry (agenda : Agenda κ) (step : Step κ) : Entry κ :=
  { step with depth := agenda.depth, ticket := agenda.arrivals }

def append (agenda : Agenda κ) (step : Step κ) : Agenda κ :=
  let arrivals := agenda.arrivals + 1
  match agenda.active with
  | some _ => { agenda with found := agenda.found.push (agenda.entry step), arrivals }
  | none => { agenda with waiting := agenda.waiting.push (agenda.entry step), arrivals }

theorem appendIdle {agenda : Agenda κ} (idle : agenda.active = none) (step : Step κ) :
    (agenda.append step).pipeline = agenda.pipeline ++ [agenda.entry step] ∧
      (agenda.append step).buffer = agenda.buffer := by
  simp [append, idle, pipeline, buffer, Lane.listOfPush]

theorem appendActive {agenda : Agenda κ} {active : Active} (busy : agenda.active = some active)
    (step : Step κ) :
    (agenda.append step).pipeline = agenda.pipeline ∧
      (agenda.append step).buffer = agenda.buffer ++ [agenda.entry step] := by
  simp [append, busy, pipeline, buffer, Lane.listOfPush]

theorem activeAfterAppend (agenda : Agenda κ) (step : Step κ) :
    (agenda.append step).active = agenda.active := by
  unfold append
  split <;> rfl

def activate (agenda : Agenda κ) (index : UInt32) : Option (Entry κ × Agenda κ) :=
  agenda.waiting.pop?.map fun (entry, waiting) =>
    (entry, { agenda with waiting, active := some ⟨index, entry.label index, entry.depth⟩ })

theorem activateNone {agenda : Agenda κ} {index : UInt32}
    (ended : agenda.activate index = none) : agenda.pipeline = [] :=
  Lane.popNone (Option.map_eq_none_iff.mp ended)

theorem activateSome {agenda next : Agenda κ} {index : UInt32} {entry : Entry κ}
    (taken : agenda.activate index = some (entry, next)) :
    agenda.pipeline = entry :: next.pipeline ∧ next.buffer = agenda.buffer ∧
      next.active = some ⟨index, entry.label index, entry.depth⟩ ∧
      next.arrivals = agenda.arrivals := by
  obtain ⟨⟨first, rest⟩, pop, same⟩ := Option.map_eq_some_iff.mp taken
  cases same
  exact ⟨Lane.popSome pop, rfl, rfl, rfl⟩

def settle (agenda : Agenda κ) : Agenda κ :=
  { agenda with
    waiting := agenda.waiting.prepend agenda.buffer, found := .empty, active := none }

theorem settled (agenda : Agenda κ) :
    agenda.settle.pipeline = agenda.pending ∧ agenda.settle.buffer = [] := by
  simp [settle, pipeline, buffer, pending, Lane.listOfPrepend, Lane.listOfEmpty]

def takeRemaining (agenda : Agenda κ) : List (Entry κ) × Agenda κ :=
  (agenda.settle.pipeline, { agenda.settle with waiting := .empty })

end Agenda

structure Status where
  name : String
  len : Nat
  active : Option Active
  deriving DecidableEq, Repr

namespace Status

def isEmpty (status : Status) : Bool :=
  status.len == 0

def isActive (status : Status) : Bool :=
  status.active.isSome

def activeStep (status : Status) : Option String :=
  status.active.map Active.label

end Status

structure PendingStep where
  position : Nat
  kind : Kind
  depth : UInt32
  description : Option String
  deriving DecidableEq, Repr

structure Snapshot where
  name : String
  active : Option Active
  pending : List PendingStep
  deriving DecidableEq, Repr

namespace Snapshot

def activeStep (snapshot : Snapshot) : Option String :=
  snapshot.active.map Active.label

def activeIndex (snapshot : Snapshot) : Option UInt32 :=
  snapshot.active.map Active.index

end Snapshot

def Agenda.status (agenda : Agenda κ) (name : String) : Status :=
  ⟨name, agenda.len, agenda.active⟩

def Agenda.snapshot (agenda : Agenda κ) (name : String) : Snapshot where
  name := name
  active := agenda.active
  pending := agenda.pending.zipIdx.map fun (entry, position) =>
    ⟨position, entry.kind, entry.depth, entry.description⟩

end Sequencer
