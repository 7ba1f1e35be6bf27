import Mathlib.Logic.Relation
import Sequencer.Scheduler
import Sequencer.Proofs.Log

/-! The course of one queue, seen alone. A standing is what waits on the queue, its log and where
its run is. What can happen to it is of three kinds: acts given from outside the library, the
library's reply to code that has ended, and the acts that follow from a reply until code is called
again. Nothing here says what any code does, so a fact about courses holds whatever it does. -/
namespace Sequencer

/- Where the run of a queue is: before its start, in a piece of code, between two acts of the
library, or over, with a result unless it was broken off. -/
inductive Point (κ ν : Type) where
  | free
  | inside (stage : Stage κ ν)
  | proceeding (run : Run) (value : ν)
  | delivering (run : Run) (delivery : Delivery) (rest : List (Entry κ)) (index : UInt32)
      (dropped : Nat)
  | finished (result : Option (Except RunError ν))

structure Standing (κ ν ε : Type) where
  agenda : Agenda κ
  log : Log κ ν ε
  point : Point κ ν

def Entry.stage (entry : Entry κ) (run : Run) (step : Int) (info : StepInfo) (value : ν) :
    Stage κ ν :=
  match entry.kind with
  | .value => .applying run step info
  | .async => .calling run step info
  | .observer => .observing run step info value

inductive Settles : (stage : Stage κ ν) → Ending (stage.Answer ε) →
    Run → Int → StepInfo → Except RunError ν → Prop where
  | body (run step info ending) :
      Settles (.applying run step info) ending run step info (ending.result info.label)
  | callFailed (run step info failure) :
      Settles (.calling run step info) (.failed failure) run step info
        (.error (.stepFailed info.label failure))
  | callPanicked (run step info payload) :
      Settles (.calling run step info) (.panicked payload) run step info
        (.error (.stepPanicked info.label payload.message))
  | future (run step info ending) :
      Settles (.awaiting run step info) ending run step info (ending.result info.label)
  | observer (run step info value ending) :
      Settles (.observing run step info value) ending run step info (.ok value)

def Ending.complaint? : Ending β → Option Failure
  | .failed failure => some failure
  | _ => none

def Ending.Heard : Ending β → Prop
  | .panicked _ => False
  | _ => True

def Verdict.event (queue : QueueId) (index : UInt32) : Verdict ν → Event κ ν ε
  | .completed value => .completed queue index value
  | .failed error dropped => .failed queue error dropped

namespace Standing

inductive Given (queue : QueueId) (name : String) : Standing κ ν ε → Standing κ ν ε → Prop where
  | append (agenda log point step) : Given queue name ⟨agenda, log, point⟩
      ⟨agenda.append step,
        log ++ [.appended queue (agenda.entry step) agenda.active.isSome], point⟩
  | discard (agenda log) : Given queue name ⟨agenda, log, .free⟩ ⟨agenda, log, .finished none⟩
  | begin (agenda log value) : Given queue name ⟨agenda, log, .free⟩
      ⟨agenda, log ++ [.asked queue (.startRun name)], .inside (.startingRun queue value)⟩
  | leave (agenda log stage) : Given queue name
      ⟨agenda, log, .inside stage⟩ ⟨agenda, log, .finished none⟩

inductive Response (queue : QueueId) : (stage : Stage κ ν) → Ending (stage.Answer ε) →
    Standing κ ν ε → Standing κ ν ε → Prop where
  | accept (agenda log value id) : Response queue (.startingRun queue value) (.returned id)
      ⟨agenda, log, .inside (.startingRun queue value)⟩
      ⟨agenda, log ++ [.started queue id agenda.len], .proceeding ⟨queue, id, 0⟩ value⟩
  | reject (agenda log value failure) : Response queue (.startingRun queue value) (.failed failure)
      ⟨agenda, log, .inside (.startingRun queue value)⟩
      ⟨agenda, log, .finished (some (.error (.recorder failure)))⟩
  | apply (agenda log run value entry info step) :
      Response queue (.startingStep run value entry info) (.returned step)
        ⟨agenda, log, .inside (.startingStep run value entry info)⟩
        ⟨agenda, log ++ [.applied queue step entry info value],
          .inside (entry.stage run step info value)⟩
  | refuse (agenda log run value entry info failure) :
      Response queue (.startingStep run value entry info) (.failed failure)
        ⟨agenda, log, .inside (.startingStep run value entry info)⟩
        ⟨agenda.settle.takeRemaining.2,
          log ++ [.refused queue info (.recorder failure), .withdrawn queue agenda.pending],
          .delivering run ⟨.recorder failure, none⟩ agenda.pending (run.index + 1) 0⟩
  | call (agenda log run step info program) :
      Response queue (.calling run step info) (.returned program)
        ⟨agenda, log, .inside (.calling run step info)⟩
        ⟨agenda, log, .inside (.awaiting run step info)⟩
  | settle (agenda log stage ending run step info value)
      (settles : Settles stage ending run step info (.ok value)) : Response queue stage ending
      ⟨agenda, log, .inside stage⟩
      ⟨agenda.settle,
        log ++ [.settled queue info agenda.found.size (.ok value),
          .asked queue (.completeStep step (.completed agenda.found.size))],
        .inside (.completingStep { run with index := run.index + 1 } info (.completed value))⟩
  | fail (agenda log stage ending run step info error)
      (settles : Settles stage ending run step info (.error error)) : Response queue stage ending
      ⟨agenda, log, .inside stage⟩
      ⟨agenda.settle.takeRemaining.2,
        log ++ [.settled queue info agenda.found.size (.error error),
          .withdrawn queue agenda.pending],
        .delivering { run with index := run.index + 1 } ⟨error, some (step, info)⟩ agenda.pending
          (run.index + 1) 0⟩
  | told (agenda log run delivery label rest index dropped ending) :
      Response queue (.delivering run delivery label rest index dropped) ending
        ⟨agenda, log, .inside (.delivering run delivery label rest index dropped)⟩
        ⟨agenda, log, .delivering run delivery rest index dropped⟩
  | goOn (agenda log run info value) (ending : Ending Unit) (heard : ending.Heard) :
      Response queue (.completingStep run info (.completed value)) ending
        ⟨agenda, log, .inside (.completingStep run info (.completed value))⟩
        ⟨agenda, log ++ ending.complaint?.toList.map (.stepUnrecorded queue info),
          .proceeding run value⟩
  | giveUp (agenda log run info error dropped) (ending : Ending Unit) (heard : ending.Heard) :
      Response queue (.completingStep run info (.failed error dropped)) ending
        ⟨agenda, log, .inside (.completingStep run info (.failed error dropped))⟩
        ⟨agenda, log ++ ending.complaint?.toList.map (.stepUnrecorded queue info) ++
            [.asked queue (.completeRun run.id (.failed error.text dropped))],
          .inside (.completingRun run (.failed error dropped))⟩
  | finish (agenda log run verdict) (ending : Ending Unit) (heard : ending.Heard) :
      Response queue (.completingRun run verdict) ending
        ⟨agenda, log, .inside (.completingRun run verdict)⟩
        ⟨agenda, log ++ ending.complaint?.toList.map (.runUnrecorded queue) ++
            [verdict.event queue run.index],
          .finished (some verdict.result)⟩

inductive Follow (queue : QueueId) : Standing κ ν ε → Standing κ ν ε → Prop where
  | drained (agenda log run value) (ended : agenda.activate run.index = none) : Follow queue
      ⟨agenda, log, .proceeding run value⟩
      ⟨agenda, log ++ [.asked queue (.completeRun run.id (.completed run.index))],
        .inside (.completingRun run (.completed value))⟩
  | activate (agenda log run value entry next)
      (taken : agenda.activate run.index = some (entry, next)) : Follow queue
      ⟨agenda, log, .proceeding run value⟩
      ⟨next, log ++ [.activated queue entry (entry.info run.index),
          .asked queue (.startStep run.id (entry.info run.index))],
        .inside (.startingStep run value entry (entry.info run.index))⟩
  | pass (agenda log run delivery entry rest index dropped) (other : entry.isObserver = false) :
      Follow queue
        ⟨agenda, log, .delivering run delivery (entry :: rest) index dropped⟩
        ⟨agenda, log, .delivering run delivery rest (index + 1) (dropped + 1)⟩
  | notify (agenda log run delivery entry rest index dropped) (observer : entry.isObserver = true) :
      Follow queue
        ⟨agenda, log, .delivering run delivery (entry :: rest) index dropped⟩
        ⟨agenda, log ++ [.notified queue entry (entry.label index) delivery.error],
          .inside (.delivering run delivery (entry.label index) rest (index + 1) dropped)⟩
  | deliveredStep (agenda log run error step info index dropped) : Follow queue
      ⟨agenda, log, .delivering run ⟨error, some (step, info)⟩ [] index dropped⟩
      ⟨agenda, log ++ [.dropped queue dropped,
          .asked queue (.completeStep step (.failed error.text))],
        .inside (.completingStep run info (.failed error dropped))⟩
  | deliveredStart (agenda log run error index dropped) : Follow queue
      ⟨agenda, log, .delivering run ⟨error, none⟩ [] index dropped⟩
      ⟨agenda, log ++ [.dropped queue dropped,
          .asked queue (.completeRun run.id (.failed error.text (dropped + 1)))],
        .inside (.completingRun run (.failed error (dropped + 1)))⟩

abbrev Follows (queue : QueueId) : Standing κ ν ε → Standing κ ν ε → Prop :=
  Relation.ReflTransGen (Follow queue)

/-- A fact about standings that is there at the start and that every act keeps. -/
structure Kept (queue : QueueId) (name : String) (fact : Standing κ ν ε → Prop) : Prop where
  start : fact ⟨{}, [], .free⟩
  given : ∀ {a b}, Given queue name a b → fact a → fact b
  reply : ∀ {stage ending a b}, Response queue stage ending a b → fact a → fact b
  follow : ∀ {a b}, Follow queue a b → fact a → fact b

theorem Kept.follows {queue : QueueId} {name : String} {fact : Standing κ ν ε → Prop}
    (kept : Kept queue name fact) {a b : Standing κ ν ε} (path : Follows queue a b)
    (holds : fact a) : fact b := by
  induction path with
  | refl => exact holds
  | tail _ act ih => exact kept.follow act ih

variable {queue : QueueId} {name : String}

theorem Given.grows {a b : Standing κ ν ε} (act : Given queue name a b) : a.log <+: b.log := by
  cases act <;> first | exact List.prefix_append _ _ | exact List.prefix_rfl

theorem Response.grows {stage : Stage κ ν} {ending : Ending (stage.Answer ε)} {a b : Standing κ ν ε}
    (act : Response queue stage ending a b) : a.log <+: b.log := by
  cases act <;> simp only [List.append_assoc, List.prefix_append, List.prefix_rfl]

theorem Follow.grows {a b : Standing κ ν ε} (act : Follow queue a b) : a.log <+: b.log := by
  cases act <;> first | exact List.prefix_append _ _ | exact List.prefix_rfl

theorem followsGrow {a b : Standing κ ν ε} (path : Follows queue a b) : a.log <+: b.log := by
  induction path with
  | refl => exact List.prefix_rfl
  | tail _ act ih => exact ih.trans act.grows

variable (queue name) in
theorem keptTrue : Kept queue name fun _ : Standing κ ν ε => True where
  start := trivial
  given _ _ := trivial
  reply _ _ := trivial
  follow _ _ := trivial

theorem Kept.and {fact other : Standing κ ν ε → Prop} (kept : Kept queue name fact)
    (also : Kept queue name other) : Kept queue name fun a => fact a ∧ other a where
  start := ⟨kept.start, also.start⟩
  given act holds := ⟨kept.given act holds.1, also.given act holds.2⟩
  reply act holds := ⟨kept.reply act holds.1, also.reply act holds.2⟩
  follow act holds := ⟨kept.follow act holds.1, also.follow act holds.2⟩

theorem logPassed {earlier later : Log κ ν ε} {before : Log κ ν ε} {event : Event κ ν ε}
    (grown : earlier <+: later) (within : before ++ [event] <+: later) :
    before ++ [event] <+: earlier ∨ earlier <+: before := by
  rcases List.prefix_or_prefix_of_prefix within grown with passed | ahead
  · exact .inl passed
  · rcases List.prefix_concat_iff.mp ahead with same | ahead
    · exact .inl (same ▸ List.prefix_rfl)
    · exact .inr ahead

theorem notPassed {log before : Log κ ν ε} {event : Event κ ν ε} (ahead : log <+: before)
    (passed : before ++ [event] <+: log) : False := by
  have short := (passed.trans ahead).length_le
  simp only [List.length_append, List.length_singleton] at short
  omega

theorem followsPass {fact : Standing κ ν ε → Prop} (kept : Kept queue name fact)
    {a b : Standing κ ν ε} (path : Follows queue a b) (holds : fact a) {before : Log κ ν ε}
    {event : Event κ ν ε} (ahead : a.log <+: before) (passed : before ++ [event] <+: b.log) :
    ∃ x y, Follow queue x y ∧ fact x ∧ x.log <+: before ∧ before ++ [event] <+: y.log ∧
      y.log <+: b.log := by
  induction path with
  | refl => exact (notPassed ahead passed).elim
  | tail earlier act ih =>
    rcases logPassed act.grows passed with already | ahead
    · obtain ⟨x, y, turn, factual, start, finished, within⟩ := ih already
      exact ⟨x, y, turn, factual, start, finished, within.trans act.grows⟩
    · exact ⟨_, _, act, kept.follows earlier holds, ahead, passed, List.prefix_rfl⟩

end Standing

end Sequencer
