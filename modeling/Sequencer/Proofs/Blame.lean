import Sequencer.Proofs.Bystanders
import Sequencer.Proofs.Outcome

/-! The step at which a run failed, read off its log. The run decides on a step when it applies it,
settles it or takes it out; the last step that was applied is the one to blame, it is no observer,
and its label stands in the error. -/
namespace Sequencer
open Ensemble Standing

variable {κ ν ε : Type}

def Point.Works : Point κ ν → Prop
  | .inside (.startingStep _ _ entry info) => info.kind = entry.kind.name
  | .inside (.applying _ _ info) | .inside (.calling _ _ info) | .inside (.awaiting _ _ info) =>
    info.kind ≠ Kind.observer.name
  | _ => True

theorem Entry.worksAtStage (entry : Entry κ) (run : Run) (step : Int) (info : StepInfo) (value : ν)
    (kind : info.kind = entry.kind.name) :
    (Point.inside (entry.stage run step info value)).Works := by
  unfold Entry.stage
  cases own : entry.kind with
  | observer => trivial
  | value | async =>
    rw [own] at kind
    exact fun observer => absurd (kind.symm.trans observer) (by decide)

variable (queue : QueueId) (name : String) in
theorem Standing.keptWorks : Kept queue name fun a : Standing κ ν ε => a.point.Works where
  start := trivial
  given act holds := by
    cases act with
    | append => exact holds
    | _ => trivial
  reply act holds := by
    cases act with
    | apply agenda log run value entry info step =>
      exact entry.worksAtStage run step info value holds
    | call => exact holds
    | _ => trivial
  follow act _ := by
    cases act with
    | activate => exact rfl
    | _ => trivial

namespace Settles

variable {stage : Stage κ ν} {ending : Ending (stage.Answer ε)} {run : Run} {step : Int}
  {info : StepInfo} {error : RunError}

theorem fails (settles : Settles stage ending run step info (.error error)) :
    error.step? = some info.label ∧
      ((Point.inside stage).Works → info.kind ≠ Kind.observer.name) := by
  have named {β : Type} {label : String} {ending : Ending β}
      (failed : ending.result label = .error error) : error.step? = some label := by
    cases ending <;> cases failed <;> rfl
  generalize same : Except.error error = result at settles
  cases settles with
  | body run step info ending => exact ⟨named same.symm, id⟩
  | callFailed | callPanicked => cases same; exact ⟨rfl, id⟩
  | future run step info ending => exact ⟨named same.symm, id⟩
  | observer => cases same

end Settles

def Event.skips? : Event κ ν ε → Option Nat
  | .withdrawn _ remaining => some (skipped remaining)
  | _ => none

theorem Trunk.skipsNone (queue : QueueId) (name : String) (trunk : Trunk κ ν) :
    (trunk.events queue name : Log κ ν ε).filterMap Event.skips? = [] := by
  refine List.filterMap_eq_nil_iff.mpr fun event present => ?_
  cases Trunk.unfailed present <;> rfl

def Event.decides : Event κ ν ε → Bool
  | .applied _ _ _ _ _ | .settled _ _ _ _ | .withdrawn _ _ => true
  | _ => false

theorem Event.undecided {event : Event κ ν ε} (undecided : event.decides = false) :
    event.doing? = none ∧ event.skips? = none := by
  cases event with
  | applied | settled | withdrawn => cases undecided
  | _ => exact ⟨rfl, rfl⟩

section Deciding

variable {β : Type} {f : Event κ ν ε → Option β}
  (idle : ∀ event, event.decides = false → f event = none)
include idle

theorem Fell.decided {queue : QueueId} {name : String} {error : RunError} {agenda : Agenda κ}
    {log : Log κ ν ε} {trunk : Trunk κ ν} {entry : Entry κ} {attempt : Attempt ν}
    {remaining : List (Entry κ)} {before after : Log κ ν ε}
    (fell : Fell queue name error agenda log trunk ⟨entry, some attempt, error, remaining⟩ before
      after) :
    log.filterMap f = (trunk.events queue name).filterMap f ++
      [.applied queue attempt.step entry (entry.info trunk.index) attempt.input,
        .settled queue (entry.info trunk.index) attempt.spliced (.error error),
        .withdrawn queue remaining].filterMap f := by
  obtain ⟨complaint, deeds⟩ := fell.cut
  have idling (events : Log κ ν ε) (none : ∀ event ∈ events, event.decides = false) :
      events.filterMap f = [] :=
    List.filterMap_eq_nil_iff.mpr fun event present => idle event (none event present)
  let closing : Log κ ν ε :=
    Fall.closing queue trunk.run trunk.index ⟨entry, some attempt, error, remaining⟩
  let ending : Log κ ν ε :=
    complaint.toList.map (.runUnrecorded queue) ++ [.failed queue error (skipped remaining)]
  have opens : (opening queue trunk.run entry trunk.index).filterMap f = [] :=
    idling _ (by simp [opening, Event.decides])
  have closes : closing.filterMap f = [] :=
    idling _ (by
      obtain ⟨step, input, spliced, unrecorded⟩ := attempt
      cases unrecorded <;> simp [closing, Fall.closing, Event.decides])
  have ends : ending.filterMap f = [] :=
    idling _ (by cases complaint <;> simp [ending, Event.decides])
  have told := noticesSilent (fun _ _ _ _ => idle _ rfl) queue error (trunk.index + 1) remaining
  have order : log.deeds = trunk.events queue name ++ (opening queue trunk.run entry trunk.index ++
      ([.applied queue attempt.step entry (entry.info trunk.index) attempt.input,
        .settled queue (entry.info trunk.index) attempt.spliced (.error error),
        .withdrawn queue remaining] ++
        (notices queue error (trunk.index + 1) remaining ++ (closing ++ ending)))) := by
    rw [deeds]
    simp [Fall.lead, Fall.blow, Fall.dropped, closing, ending]
  rw [← Log.readDeeds log f fun _ _ _ => idle _ rfl, order]
  simp only [List.filterMap_append, opens, told, closes, ends, List.nil_append, List.append_nil]

end Deciding

structure Blame (queue : QueueId) (error : RunError) (log : Log κ ν ε) (before : List (Entry κ))
    (entry : Entry κ) (dropped : Nat) : Prop where
  applied : log.applied = before ++ [entry]
  label : error.step? = some (entry.label (UInt32.ofNat before.length))
  told : .failed queue error dropped ∈ log
  skips : log.filterMap Event.skips? = [dropped]
  doings : ∃ front input, log.filterMap Event.doing? = front ++
    [.applied entry.toStep entry.depth input, .settled (.error (error.under ""))]

section Ended

variable {behaviour : Behaviour κ ν ε} {queue : QueueId} {name : String} {last : Ensemble κ ν ε}

theorem Fell.blame {error : RunError} {agenda : Agenda κ} {trunk : Trunk κ ν} {fall : Fall κ ν}
    {before after : Log κ ν ε} (reached : Reachable behaviour last)
    (fell : Fell queue name error agenda (last.world.log queue) trunk fall before after)
    (granted : ∀ info error, .refused queue info error ∉ last.world.log queue) :
    ∃ before entry dropped, Blame queue error (last.world.log queue) before entry dropped := by
  have blown := fell.blown
  have applied := fell.read.2.1
  obtain ⟨complaint, deeds⟩ := fell.cut
  obtain ⟨entry, attempt, cause, remaining⟩ := fall
  obtain rfl : error = cause := fell.cause
  cases attempt with
  | none => exact absurd blown (granted _ _)
  | some attempt =>
    obtain ⟨left, right, log, -, -⟩ := Log.splitDeeds deeds
    obtain ⟨a, stage, ending, rest, -, -, -, -, works, answer, -⟩ :=
      reached.answered (keptWorks queue _) rfl log
    obtain ⟨run, step, settles, -⟩ := answer.ofFailed
    obtain ⟨label, other⟩ := settles.fails
    have observer : entry.isObserver = false := by
      rw [Step.isObserver, beq_eq_false_iff_ne]
      exact fun observer => other works (congrArg Kind.name observer)
    have length : trunk.entries.length = trunk.rounds.length := List.length_map _
    refine ⟨trunk.entries, entry, skipped remaining, applied, ?_, ?_, ?_, ?_⟩
    · rw [length]
      exact label
    · have deed : Event.failed queue error (skipped remaining) ∈ (last.world.log queue).deeds := by
        rw [deeds]
        simp [Fall.dropped]
      exact List.mem_of_mem_filter deed
    · rw [fell.decided fun event undecided => (Event.undecided undecided).2, trunk.skipsNone]
      rfl
    · refine ⟨(trunk.events queue name : Log κ ν ε).filterMap Event.doing?, attempt.input, ?_⟩
      rw [fell.decided fun event undecided => (Event.undecided undecided).1]
      have own : (entry.info trunk.index).kind ≠ Kind.observer.name := other works
      simp [List.filterMap_cons, Event.doing?, observer, own, Except.mapError]

theorem Completed.skipsNone {value : ν} {agenda : Agenda κ} {log before after : Log κ ν ε}
    {trunk : Trunk κ ν} (completed : Completed queue name value agenda log trunk before after) :
    log.filterMap Event.skips? = [] := by
  obtain ⟨complaint, deeds⟩ := completed.deeds
  rw [← Log.readDeeds log _ fun _ _ _ => rfl, deeds, List.filterMap_append, List.filterMap_append,
    List.filterMap_append, trunk.skipsNone]
  cases complaint <;> rfl

theorem Rejected.skipsNone {error : RunError} {log : Log κ ν ε}
    (rejected : Rejected queue name error log) : log.filterMap Event.skips? = [] := by
  rw [← Log.readDeeds log _ fun _ _ _ => rfl, rejected.deeds]
  rfl

theorem Ensemble.Returns.blame {error : RunError} {s : Ensemble κ ν ε}
    (returns : Returns behaviour queue (.error error) s last) (reached : Reachable behaviour s)
    (granted : ∀ info error, .refused queue info error ∉ last.world.log queue)
    (admitted : error.step? ≠ none ∨ (last.world.log queue).filterMap Event.skips? ≠ []) :
    ∃ before entry dropped, Blame queue error (last.world.log queue) before entry dropped := by
  rcases returns.failed reached .refl with rejected | ⟨trunk, fall, before, after, fell⟩
  · obtain ⟨failure, rfl⟩ := rejected.cause
    exact (admitted.elim (fun named => named rfl) fun taken => taken rejected.skipsNone).elim
  · exact fell.blame (reached.next returns.next) granted

theorem World.skipsOfTaken (world : World κ ν ε) {remaining : List (Entry κ)}
    (taken : .withdrawn queue remaining ∈ world.history) :
    skipped remaining ∈ (world.log queue).filterMap Event.skips? := by
  refine List.mem_filterMap.mpr ⟨.withdrawn queue remaining, ?_, rfl⟩
  unfold World.log
  simp [taken, Event.queue?]

theorem Ensemble.Returns.blameOfTaken {result : Except RunError ν} {s : Ensemble κ ν ε}
    (returns : Returns behaviour queue result s last) (reached : Reachable behaviour s)
    (granted : ∀ info error, .refused queue info error ∉ last.world.log queue)
    {remaining : List (Entry κ)} (taken : .withdrawn queue remaining ∈ last.world.history) :
    ∃ error before entry, result = .error error ∧
      Blame queue error (last.world.log queue) before entry (skipped remaining) := by
  have skips := last.world.skipsOfTaken taken
  cases result with
  | ok value =>
    obtain ⟨trunk, before, after, completed⟩ := returns.completed reached .refl
    rw [completed.skipsNone] at skips
    cases skips
  | error error =>
    obtain ⟨before, entry, dropped, blame⟩ :=
      returns.blame reached granted (.inr (List.ne_nil_of_mem skips))
    rw [blame.skips, List.mem_singleton] at skips
    exact ⟨error, before, entry, rfl, skips ▸ blame⟩

end Ended

end Sequencer
