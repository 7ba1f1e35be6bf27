import Sequencer.Proofs.Story

/-! What is read off a story: which steps were activated, applied, told or taken out, and which
calls the recorder got. The appends in between say nothing about these. -/
namespace Sequencer

namespace Log

theorem readDeeds (log : Log κ ν ε) (f : Event κ ν ε → Option β)
    (blind : ∀ queue entry nested, f (.appended queue entry nested) = none) :
    log.deeds.filterMap f = log.filterMap f := by
  rw [deeds, List.filterMap_filter]
  congr
  funext event
  cases event <;> simp [Event.arrival?, blind]

theorem readAppended (log : Log κ ν ε) {more : Log κ ν ε} (none : more.deeds = [])
    (f : Event κ ν ε → Option β)
    (blind : ∀ queue entry nested, f (.appended queue entry nested) = Option.none) :
    (log ++ more).filterMap f = log.filterMap f := by
  refine log.readQuiet ?_
  rw [← readDeeds more f blind, none, List.filterMap_nil]

theorem splitDeeds {log left right : Log κ ν ε} {event : Event κ ν ε}
    (split : log.deeds = left ++ event :: right) :
    ∃ before after, log = before ++ event :: after ∧
      before.deeds = left ∧ Log.deeds after = right := by
  rw [deeds, List.filter_eq_append_iff] at split
  obtain ⟨first, second, rfl, before, rest⟩ := split
  rw [List.filter_eq_cons_iff] at rest
  obtain ⟨ahead, after, rfl, none, -, behind⟩ := rest
  refine ⟨first ++ ahead, after, by simp, ?_, behind⟩
  rw [deeds, List.filter_append, before, List.filter_eq_nil_iff.mpr none, List.append_nil]

end Log

structure Reading (κ : Type) where
  activated : List (Entry κ)
  applied : List (Entry κ)
  notified : List (Entry κ)
  withdrawn : List (Entry κ)
  calls : List Call

def Reading.append (first second : Reading κ) : Reading κ :=
  ⟨first.activated ++ second.activated, first.applied ++ second.applied,
    first.notified ++ second.notified, first.withdrawn ++ second.withdrawn,
    first.calls ++ second.calls⟩

namespace Log

def reading (log : Log κ ν ε) : Reading κ :=
  ⟨log.activated, log.applied, log.notified, log.withdrawn, log.calls⟩

theorem readingAppend (first second : Log κ ν ε) :
    Log.reading (first ++ second) = first.reading.append second.reading := by
  simp [reading, Reading.append]

theorem readingOfDeeds (log : Log κ ν ε) : log.deeds.reading = log.reading := by
  have withdrawn : log.deeds.withdrawn = log.withdrawn := by
    induction log with
    | nil => rfl
    | cons event rest ih =>
      cases event with
      | withdrawn queue remaining => exact congrArg (remaining ++ ·) ih
      | _ => exact ih
  simp only [reading, withdrawn, Log.activated, Log.applied, Log.notified, Log.calls]
  simp only [readDeeds log Event.activation? fun _ _ _ => rfl,
    readDeeds log Event.application? fun _ _ _ => rfl,
    readDeeds log Event.notice? fun _ _ _ => rfl, readDeeds log Event.call? fun _ _ _ => rfl]

end Log

namespace Round

def calls (run : Int) (round : Round κ ν) (place : Nat) : List Call :=
  [.startStep run (round.entry.info (UInt32.ofNat place)),
    .completeStep round.step (.completed round.spliced)]

theorem read (queue : QueueId) (run : Int) (round : Round κ ν) (place : Nat) :
    (round.events queue run place : Log κ ν ε).reading =
      ⟨[round.entry], [round.entry], [], [], round.calls run place⟩ := by
  obtain ⟨entry, step, input, spliced, output, complaint⟩ := round
  cases complaint <;> rfl

end Round

namespace Trunk

def calls (trunk : Trunk κ ν) : List Call :=
  trunk.rounds.zipIdx.flatMap fun (round, place) => round.calls trunk.run place

def entries (trunk : Trunk κ ν) : List (Entry κ) := trunk.rounds.map Round.entry

theorem read (queue : QueueId) (name : String) (trunk : Trunk κ ν) :
    (trunk.events queue name : Log κ ν ε).reading =
      ⟨trunk.entries, trunk.entries, [], [], .startRun name :: trunk.calls⟩ := by
  induction trunk using byRounds with
  | admitted run queued => rfl
  | grown trunk round ih =>
    rw [eventsOfGrow, Log.readingAppend, ih, Round.read]
    simp [Reading.append, entries, calls, grow, List.zipIdx_append]

end Trunk

namespace Fall

def applied (fall : Fall κ ν) : List (Entry κ) :=
  if fall.attempt.isSome then [fall.entry] else []

def completion (fall : Fall κ ν) : List Call :=
  fall.attempt.toList.map fun attempt => .completeStep attempt.step (.failed fall.error.text)

theorem read (queue : QueueId) (run : Int) (index : UInt32) (fall : Fall κ ν) :
    (fall.events queue run index : Log κ ν ε).reading =
      ⟨[fall.entry], fall.applied, [], fall.remaining,
        [.startStep run (fall.entry.info index)]⟩ := by
  obtain ⟨entry, attempt, error, remaining⟩ := fall
  cases attempt <;> simp [events, lead, blow, opening, Log.reading, applied, List.filterMap_cons,
    Event.activation?, Event.application?, Event.notice?, Event.call?, Event.withdrawal]

theorem readClosing (queue : QueueId) (run : Int) (index : UInt32) (fall : Fall κ ν) :
    (fall.closing queue run index : Log κ ν ε).reading =
      ⟨[], [], [], [],
        fall.completion ++ [.completeRun run (.failed fall.error.text fall.dropped)]⟩ := by
  obtain ⟨entry, attempt, error, remaining⟩ := fall
  rcases attempt with _ | ⟨step, input, spliced, complaint⟩
  · rfl
  · cases complaint <;> rfl

end Fall

theorem readNotices (queue : QueueId) (error : RunError) (start : UInt32) (told : List (Entry κ)) :
    (notices queue error start told : Log κ ν ε).reading =
      ⟨[], [], told.filter fun entry => entry.isObserver, [], []⟩ := by
  induction told using List.reverseRecOn with
  | nil => rfl
  | append_singleton told entry ih =>
    rw [noticesOfSnoc, Log.readingAppend, ih]
    cases observer : entry.isObserver
    · simp [Reading.append, Log.reading, observer]
    · simp [Reading.append, Log.reading, observer, Event.activation?, Event.application?,
        Event.notice?, Event.withdrawal, Event.call?]

theorem readFallen (queue : QueueId) (name : String) (trunk : Trunk κ ν) (fall : Fall κ ν)
    (told : List (Entry κ)) : (fallen queue name trunk fall told : Log κ ν ε).reading =
      ⟨trunk.entries ++ [fall.entry], trunk.entries ++ fall.applied,
        told.filter fun entry => entry.isObserver, fall.remaining,
        .startRun name :: trunk.calls ++ [.startStep trunk.run (fall.entry.info trunk.index)]⟩ := by
  rw [fallen, Log.readingAppend, Log.readingAppend, Trunk.read, Fall.read, readNotices]
  simp [Reading.append]

end Sequencer
