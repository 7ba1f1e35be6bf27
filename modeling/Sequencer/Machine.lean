import Sequencer.Scheduler

/-! The machine that executes user code and the library in turn. A program that runs a queue
becomes a caller; the callers form a stack, so runs nest to any depth. `advance` is one step of
it; a poll is a number of steps up to a suspension or the end. -/
namespace Sequencer

structure Machine (κ ν ε : Type) where
  world : World κ ν ε
  frame : Frame κ ν ε
  -- Innermost first.
  callers : List (Caller κ ν ε)

inductive Outcome (ν : Type) where
  | returned (result : Except RunError ν)
  | panicked (payload : Payload)
  | left

inductive Progress (κ ν ε : Type) where
  | running (machine : Machine κ ν ε)
  | suspended (machine : Machine κ ν ε)
  | ended (world : World κ ν ε) (outcome : Outcome ν)

namespace Machine

variable (behaviour : Behaviour κ ν ε)

def resume (callers : List (Caller κ ν ε)) : World κ ν ε × Turn κ ν ε → Progress κ ν ε
  | (world, .enter frame) => .running ⟨world, frame, callers⟩
  | (world, .returned result) =>
    match callers with
    | [] => .ended world (.returned result)
    | caller :: rest => .running ⟨world, ⟨caller.stage, caller.resume (some result)⟩, rest⟩
  | (world, .unwound payload) =>
    match callers with
    | [] => .ended world (.panicked payload)
    | caller :: rest => .running ⟨world, ⟨caller.stage, .panic payload⟩, rest⟩
  | (world, .left) => .ended world .left

/- A suspension is real only if the code and all its callers can wait. -/
def awaits (machine : Machine κ ν ε) : Bool :=
  machine.frame.stage.awaits && machine.callers.all fun caller => caller.stage.awaits

def start (world : World κ ν ε) (callers : List (Caller κ ν ε)) (queue : QueueId)
    (initial : Option ν) : Machine κ ν ε :=
  let (world, frame) :=
    Scheduler.startRun behaviour world queue (initial.getD behaviour.neutral)
  ⟨world, frame, callers⟩

def outside (world : World κ ν ε) (code : Program κ ν ε Unit) : Machine κ ν ε :=
  ⟨world, ⟨.outside, code⟩, []⟩

def advance (machine : Machine κ ν ε) : Progress κ ν ε :=
  let ⟨world, ⟨stage, code⟩, callers⟩ := machine
  match code with
  | .done answer => resume callers (Scheduler.conclude behaviour world stage (.returned answer))
  | .fail failure => resume callers (Scheduler.conclude behaviour world stage (.failed failure))
  | .panic payload => resume callers (Scheduler.conclude behaviour world stage (.panicked payload))
  | .append queue step next => .running ⟨world.append queue step, ⟨stage, next⟩, callers⟩
  | .ask queue next => .running ⟨world, ⟨stage, next (world.queue queue).status⟩, callers⟩
  | .look queue next => .running ⟨world, ⟨stage, next (world.queue queue).snapshot⟩, callers⟩
  | .note remark next => .running ⟨world.record (.noted remark), ⟨stage, next⟩, callers⟩
  | .suspend next =>
    if machine.awaits then .suspended ⟨world, ⟨stage, next⟩, callers⟩
    else .running ⟨world, ⟨stage, next⟩, callers⟩
  | .discard queue next =>
    if (world.queue queue).taken then .running ⟨world, ⟨stage, next false⟩, callers⟩
    else .running ⟨world.take queue, ⟨stage, next true⟩, callers⟩
  | .run queue initial next =>
    if (world.queue queue).taken then .running ⟨world, ⟨stage, next none⟩, callers⟩
    else .running (start behaviour (world.take queue) (⟨stage, next⟩ :: callers) queue initial)

def poll : (fuel : Nat) → Machine κ ν ε → Progress κ ν ε
  | 0, machine => .running machine
  | fuel + 1, machine =>
    match machine.advance behaviour with
    | .running machine => poll fuel machine
    | progress => progress

theorem pollSettled (fuel : Nat) (machine : Machine κ ν ε)
    (settled : ∀ m, machine.poll behaviour fuel ≠ .running m) :
    machine.poll behaviour (fuel + 1) = machine.poll behaviour fuel := by
  induction fuel generalizing machine with
  | zero => exact absurd rfl (settled machine)
  | succ fuel ih =>
    rw [poll]
    rw [poll] at settled ⊢
    split at settled
    · next next same => simpa only [same] using ih next settled
    · rfl

end Machine

end Sequencer
