import Sequencer.Proofs.Balance
import Sequencer.Proofs.Reached
import Sequencer.Proofs.Reading

/-! The three ways in which a run gives its result: it was never admitted, it found nothing left to
activate, or it fell. For each, the story its log tells and the moment it closed. -/
namespace Sequencer
open Standing

theorem Trunk.callsOfSteps (trunk : Trunk κ ν) (run : Int) (status : RunStatus) :
    Call.completeRun run status ∉ trunk.calls := by
  simp [calls, Round.calls]

theorem Log.deedPresent {log : Log κ ν ε} {event : Event κ ν ε} (present : event ∈ log)
    (deed : event.arrival? = none) : event ∈ log.deeds := by
  simp [Log.deeds, present, deed]

theorem sameOpening {queue : QueueId} {name : String} {trunk other : Trunk κ ν}
    {entry mine : Entry κ}
    (same : (trunk.events queue name ++ opening queue trunk.run entry trunk.index : Log κ ν ε) =
      other.events queue name ++ opening queue other.run mine other.index) :
    entry = mine ∧ trunk.asRun queue = other.asRun queue := by
  have openings := (List.append_inj' same rfl).2
  simp only [opening, List.cons.injEq, Event.activated.injEq, Event.asked.injEq,
    Call.startStep.injEq, true_and, and_true] at openings
  obtain ⟨⟨rfl, info⟩, run, -⟩ := openings
  have index : trunk.index = other.index := congrArg StepInfo.index info
  exact ⟨rfl, by rw [Trunk.asRun, Trunk.asRun, run, index]⟩

structure Completed (queue : QueueId) (name : String) (value : ν) (agenda : Agenda κ)
    (log : Log κ ν ε) (trunk : Trunk κ ν) (before after : Log κ ν ε) : Prop where
  deeds : ∃ complaint : Option Failure, log.deeds = trunk.events queue name ++
    [.asked queue (.completeRun trunk.run (.completed trunk.index))] ++
    complaint.toList.map (.runUnrecorded queue) ++ [.completed queue trunk.index value]
  reading : log.reading = ⟨trunk.entries, trunk.entries, [], [], .startRun name :: trunk.calls ++
    [.completeRun trunk.run (.completed trunk.index)]⟩
  closed : Closed queue agenda log before
    (.asked queue (.completeRun trunk.run (.completed trunk.index))) after

structure Rejected (queue : QueueId) (name : String) (error : RunError) (log : Log κ ν ε) :
    Prop where
  cause : ∃ failure, error = .recorder failure
  deeds : log.deeds = [.asked queue (.startRun name)]

theorem Rejected.unadmitted {queue : QueueId} {name : String} {error : RunError} {log : Log κ ν ε}
    (rejected : Rejected queue name error log) (run : Int) (queued : Nat) :
    Event.started queue run queued ∉ log := by
  intro present
  have deed := Log.deedPresent present rfl
  simp [rejected.deeds] at deed

structure Fell (queue : QueueId) (name : String) (error : RunError) (agenda : Agenda κ)
    (log : Log κ ν ε) (trunk : Trunk κ ν) (fall : Fall κ ν) (before after : Log κ ν ε) : Prop where
  cause : error = fall.error
  deeds : ∃ complaint : Option Failure, log.deeds = fallen queue name trunk fall fall.remaining ++
    fall.closing queue trunk.run trunk.index ++
    complaint.toList.map (.runUnrecorded queue) ++ [.failed queue error fall.dropped]
  reading : log.reading = ⟨trunk.entries ++ [fall.entry], trunk.entries ++ fall.applied,
    fall.remaining.filter fun entry => entry.isObserver, fall.remaining,
    .startRun name :: trunk.calls ++ .startStep trunk.run (fall.entry.info trunk.index) ::
      fall.completion ++ [.completeRun trunk.run (.failed error.text fall.dropped)]⟩
  closed : Closed queue agenda log before (.withdrawn queue fall.remaining) after

section Readings

variable {queue : QueueId} {name : String} {agenda : Agenda κ} {log before after : Log κ ν ε}
  {trunk : Trunk κ ν}

theorem Completed.read {value : ν}
    (completed : Completed queue name value agenda log trunk before after) :
    log.activated = trunk.entries ∧ log.applied = trunk.entries ∧ log.notified = [] ∧
      log.withdrawn = [] ∧ log.calls = .startRun name :: trunk.calls ++
        [.completeRun trunk.run (.completed trunk.index)] := by
  simpa only [Log.reading, Reading.mk.injEq] using completed.reading

theorem Fell.read {error : RunError} {fall : Fall κ ν}
    (fell : Fell queue name error agenda log trunk fall before after) :
    log.activated = trunk.entries ++ [fall.entry] ∧ log.applied = trunk.entries ++ fall.applied ∧
      log.notified = (fall.remaining.filter fun entry => entry.isObserver) ∧
      log.withdrawn = fall.remaining ∧
      log.calls = .startRun name :: trunk.calls ++
        .startStep trunk.run (fall.entry.info trunk.index) ::
          fall.completion ++ [.completeRun trunk.run (.failed error.text fall.dropped)] := by
  simpa only [Log.reading, Reading.mk.injEq] using fell.reading

theorem Fell.cut {error : RunError} {fall : Fall κ ν}
    (fell : Fell queue name error agenda log trunk fall before after) :
    ∃ complaint : Option Failure, log.deeds =
      (trunk.events queue name ++ fall.lead queue trunk.run trunk.index) ++
      fall.blow queue trunk.index :: .withdrawn queue fall.remaining ::
        (notices queue error (trunk.index + 1) fall.remaining ++
          fall.closing queue trunk.run trunk.index ++
          (complaint.toList.map (.runUnrecorded queue) ++ [.failed queue error fall.dropped])) := by
  obtain ⟨complaint, deeds⟩ := fell.deeds
  obtain rfl := fell.cause
  refine ⟨complaint, ?_⟩
  rw [deeds]
  simp [fallen, Fall.events]

theorem Fell.blown {error : RunError} {fall : Fall κ ν}
    (fell : Fell queue name error agenda log trunk fall before after) :
    fall.blow queue trunk.index ∈ log := by
  obtain ⟨complaint, deeds⟩ := fell.cut
  have deed : fall.blow queue trunk.index ∈ log.deeds := by simp [deeds]
  exact List.mem_of_mem_filter deed

end Readings

theorem readEnding (queue : QueueId) (complaint : Option Failure) (last : Event κ ν ε)
    (plain : Log.reading [last] = ⟨[], [], [], [], []⟩) :
    Log.reading (complaint.toList.map (.runUnrecorded queue) ++ [last]) = ⟨[], [], [], [], []⟩ := by
  rw [Log.readingAppend, plain]
  cases complaint <;> rfl

namespace Ensemble

variable {behaviour : Behaviour κ ν ε} {queue : QueueId} {s r t : Ensemble κ ν ε}

theorem Reachable.ticketsDistinct (reached : Reachable behaviour s) (queue : QueueId) :
    ((s.world.log queue).arrivals.map Entry.ticket).Nodup := by
  obtain ⟨point, -, holds⟩ := reached.holds (keptTicketed queue _)
  rw [show (s.world.log queue).arrivals.map Entry.ticket = _ from holds]
  exact List.nodup_range

theorem Returns.completed {value : ν} (returns : Returns behaviour queue (.ok value) s r)
    (reached : Reachable behaviour s) (later : Reaches behaviour r t) :
    ∃ trunk before after, Completed queue (s.world.nameOf queue) value (t.world.agenda queue)
      (t.world.log queue) trunk before after := by
  obtain ⟨before, mark, after, ⟨run, applied, rfl⟩, closed⟩ :=
    (returns.holds reached later (keptBalanced _ _)).accounts
  obtain ⟨trunk, complaint, deeds⟩ := returns.holds reached later (keptTold _ _)
  dsimp only [standing] at closed deeds
  have reading : (t.world.log queue).reading = ⟨trunk.entries, trunk.entries, [], [],
      .startRun (s.world.nameOf queue) :: trunk.calls ++
        [.completeRun trunk.run (.completed trunk.index)]⟩ := by
    rw [← Log.readingOfDeeds, deeds, List.append_assoc, Log.readingAppend, Log.readingAppend,
      Trunk.read, readEnding queue complaint _ rfl]
    simp [Reading.append, Log.reading, Event.activation?, Event.application?, Event.notice?,
      Event.call?, Event.withdrawal]
  have asked : Call.completeRun run (.completed applied) ∈ (t.world.log queue).calls := by
    rw [closed.split]
    simp [Log.calls, Event.call?]
  rw [show (t.world.log queue).calls = _ from congrArg Reading.calls reading] at asked
  simp only [List.cons_append, List.mem_cons, List.mem_append, reduceCtorEq, false_or,
    trunk.callsOfSteps, List.not_mem_nil, or_false, Call.completeRun.injEq,
    RunStatus.completed.injEq] at asked
  obtain ⟨rfl, rfl⟩ := asked
  exact ⟨trunk, before, after, ⟨complaint, deeds⟩, reading, closed⟩

theorem Returns.failed {error : RunError} (returns : Returns behaviour queue (.error error) s r)
    (reached : Reachable behaviour s) (later : Reaches behaviour r t) :
    Rejected queue (s.world.nameOf queue) error (t.world.log queue) ∨
    ∃ trunk fall before after, Fell queue (s.world.nameOf queue) error (t.world.agenda queue)
      (t.world.log queue) trunk fall before after := by
  rcases returns.holds reached later (keptTold _ _) with
    ⟨failure, cause, deeds⟩ | ⟨trunk, fall, complaint, rfl, deeds⟩
  · exact .inl ⟨⟨failure, cause⟩, deeds⟩
  dsimp only [standing] at deeds
  have reading := (t.world.log queue).readingOfDeeds
  rw [deeds, List.append_assoc, Log.readingAppend, Log.readingAppend, readFallen,
    Fall.readClosing, readEnding queue complaint _ rfl] at reading
  have taken : (t.world.log queue).withdrawn = fall.remaining :=
    (congrArg Reading.withdrawn reading.symm).trans (by simp [Reading.append])
  rcases (returns.holds reached later (keptBalanced _ _)).accounts with
    unbroken | ⟨before, mark, after, ⟨remaining, rfl⟩, closed⟩
  · have present : Event.withdrawn queue fall.remaining ∈ (t.world.log queue).deeds := by
      rw [deeds]
      simp [fallen, Fall.events]
    exact absurd (List.mem_of_mem_filter present) (unbroken queue fall.remaining)
  · dsimp only [standing] at closed
    obtain rfl : fall.remaining = remaining := taken.symm.trans closed.taken
    refine .inr ⟨trunk, fall, before, after, rfl, ⟨complaint, deeds⟩, ?_, closed⟩
    rw [← reading]
    simp [Reading.append]

theorem Returns.failedAdmitted {error : RunError}
    (returns : Returns behaviour queue (.error error) s r) (reached : Reachable behaviour s)
    (admitted : ∃ run queued, .started queue run queued ∈ s.world.log queue)
    (later : Reaches behaviour r t) :
    ∃ trunk fall before after, Fell queue (s.world.nameOf queue) error (t.world.agenda queue)
      (t.world.log queue) trunk fall before after := by
  obtain ⟨run, queued, present⟩ := admitted
  refine (returns.failed reached later).resolve_left fun rejected => ?_
  have grown := reached.grows (.head returns.next later) queue
  exact rejected.unadmitted run queued (grown.subset present)

section Spent

def spending : Behaviour Nat Nat Unit := .countdown (.fail (.message "spent")) .silent

def spent : Ensemble Nat Nat Unit :=
  lone spending "counting" [{ kind := .value, code := 0, description := some "last" },
    { kind := .observer, code := 0 }, { kind := .value, code := 1 }] 5

theorem spentReachable : Reachable spending spent := loneReachable spending _ _ _

theorem spentReturns :
    ∃ r, Returns spending 0 (.error (.stepFailed "last" (.message "spent"))) spent r :=
  ⟨_, Returns.alone (a := spent) spending
    (.completingRun ⟨0, 0, 1⟩ (.failed (.stepFailed "last" (.message "spent")) 1))
    (.returned ()) rfl rfl rfl⟩

theorem spentAdmitted : Event.started 0 0 3 ∈ spent.world.log 0 :=
  List.mem_of_getElem? (i := 4) rfl

/-- The same steps, with an observer that says something when it is told of an error, and a
recorder that says something at each completion. -/
def heeding : Behaviour Nat Nat Unit :=
  { spending with
    watch := fun _ _ result =>
      match result with
      | .ok _ => .done ()
      | .error _ => .note () (.done ())
    recorder := fun _ =>
      { Recorder.silent with
        completeStep := fun _ _ _ => .note () (.done ())
        completeRun := fun _ _ => .note () (.done ()) } }

def heeded (fuel : Nat) : Ensemble Nat Nat Unit :=
  lone heeding "counting" [{ kind := .value, code := 0, description := some "last" },
    { kind := .observer, code := 0 }, { kind := .value, code := 1 }] fuel

theorem heededReachable (fuel : Nat) : Reachable heeding (heeded fuel) := loneReachable heeding _ _ _

theorem heededReturns :
    Returns heeding 0 (.error (.stepFailed "last" (.message "spent"))) (heeded 8) (heeded 9) :=
  Returns.alone (a := heeded 8) heeding
    (.completingRun ⟨0, 0, 1⟩ (.failed (.stepFailed "last" (.message "spent")) 1))
    (.returned ()) rfl rfl rfl

theorem heededAdmitted : Event.started 0 0 3 ∈ (heeded 8).world.log 0 :=
  List.mem_of_getElem? (i := 4) rfl

end Spent

end Ensemble

end Sequencer
