import Sequencer.Proofs.ConcertTurns
import Sequencer.Proofs.Recast

/-! What the library does between two pieces of code when both executions stand in the same place.
It does the same in both, whichever way it then enters a step: with the frames joined the next code
goes together, and so do the two worlds. -/
namespace Sequencer

variable {κ κ' ν ε : Type}

section Relations

variable (casting : Casting κ κ')

inductive Delivery.UpToKinds : Delivery → Delivery → Prop where
  | refused (error mate) (errors : RunError.UpToKinds error mate) :
      UpToKinds ⟨error, none⟩ ⟨mate, none⟩
  | failed (error mate step info also) (errors : RunError.UpToKinds error mate)
      (infos : StepInfo.UpToKinds info also) :
      UpToKinds ⟨error, some (step, info)⟩ ⟨mate, some (step, also)⟩

inductive Verdict.UpToKinds : Verdict ν → Verdict ν → Prop where
  | completed (value) : UpToKinds (.completed value) (.completed value)
  | failed (error mate dropped) (errors : RunError.UpToKinds error mate) :
      UpToKinds (.failed error dropped) (.failed mate dropped)

inductive Stage.UpToKinds : (first : Stage κ ν) → (second : Stage κ' ν) →
    (first.Answer ε → second.Answer ε → Prop) → Prop where
  | outside : UpToKinds .outside .outside Eq
  | startingRun (queue value) : UpToKinds (.startingRun queue value) (.startingRun queue value) Eq
  | startingStep (run value entry mate info also) (entries : Entry.UpToKinds casting entry mate)
      (infos : StepInfo.UpToKinds info also) :
      UpToKinds (.startingStep run value entry info) (.startingStep run value mate also) Eq
  | awaiting (run step info also) (infos : StepInfo.UpToKinds info also) :
      UpToKinds (.awaiting run step info) (.awaiting run step also) Eq
  | observing (run step info also value) (infos : StepInfo.UpToKinds info also) :
      UpToKinds (.observing run step info value) (.observing run step also value) Eq
  | delivering (run delivery news label name rest others index dropped)
      (deliveries : Delivery.UpToKinds delivery news) (labels : Relabels label name)
      (lines : casting.Lines rest others) :
      UpToKinds (.delivering run delivery label rest index dropped)
        (.delivering run news name others index dropped) Eq
  | completingStep (run info also verdict mate) (infos : StepInfo.UpToKinds info also)
      (verdicts : Verdict.UpToKinds verdict mate) :
      UpToKinds (.completingStep run info verdict) (.completingStep run also mate) Eq
  | completingRun (run verdict mate) (verdicts : Verdict.UpToKinds verdict mate) :
      UpToKinds (.completingRun run verdict) (.completingRun run mate) Eq

inductive Frame.UpToKinds : Frame κ ν ε → Frame κ' ν ε → Prop where
  | intro (first second code other meets) (stages : Stage.UpToKinds casting first second meets)
      (codes : code.UpToKinds casting meets other) : UpToKinds ⟨first, code⟩ ⟨second, other⟩

inductive Turn.UpToKinds : Turn κ ν ε → Turn κ' ν ε → Prop where
  | enter (first second) (frames : Frame.UpToKinds casting first.joined second.joined) :
      UpToKinds (.enter first) (.enter second)
  | returned (result answer) (results : Results result answer) :
      UpToKinds (.returned result) (.returned answer)
  | unwound (payload) : UpToKinds (.unwound payload) (.unwound payload)
  | left : UpToKinds .left .left

structure Replied (first : World κ ν ε × Turn κ ν ε) (second : World κ' ν ε × Turn κ' ν ε) :
    Prop where
  worlds : first.1.UpToKinds casting second.1
  turns : first.2.UpToKinds casting second.2

end Relations

variable {casting : Casting κ κ'}

theorem Delivery.UpToKinds.errors {delivery news : Delivery}
    (deliveries : delivery.UpToKinds news) :
    delivery.error.UpToKinds news.error := by
  cases deliveries <;> assumption

theorem Verdict.UpToKinds.statuses {verdict mate : Verdict ν} (verdicts : verdict.UpToKinds mate)
    (applied : UInt32) : (verdict.status applied).UpToKinds (mate.status applied) := by
  cases verdicts with
  | completed value => exact .completed applied
  | failed error mate dropped errors => exact .failed error mate dropped errors

namespace Scheduler

variable {first : Behaviour κ ν ε} {second : Behaviour κ' ν ε} {world : World κ ν ε}
  {other : World κ' ν ε} (run : Run)

theorem completeRunUpToKinds (behaviours : first.UpToKinds casting second)
    (worlds : world.UpToKinds casting other) {verdict mate : Verdict ν}
    (verdicts : verdict.UpToKinds mate) :
    Replied casting (completeRun first world run verdict) (completeRun second other run mate) where
  worlds := worlds.record (.asked run.queue _ _ (.completeRun _ _ _ (verdicts.statuses _)))
  turns := .enter _ _ (.intro _ _ _ _ _ (.completingRun run verdict mate verdicts)
    ((behaviours.recorder run.queue).completeRun _ (verdicts.statuses _)))

theorem completeStepUpToKinds (behaviours : first.UpToKinds casting second)
    (worlds : world.UpToKinds casting other) (step : Int) {info also : StepInfo}
    (infos : info.UpToKinds also) {status twin : StepStatus} (statuses : status.UpToKinds twin)
    {verdict mate : Verdict ν} (verdicts : verdict.UpToKinds mate) :
    Replied casting (completeStep first world run step info status verdict)
      (completeStep second other run step also twin mate) where
  worlds := worlds.record (.asked run.queue _ _ (.completeStep _ _ _ statuses))
  turns := .enter _ _ (.intro _ _ _ _ _ (.completingStep run info also verdict mate infos verdicts)
    ((behaviours.recorder run.queue).completeStep _ infos statuses))

theorem applyUpToKinds (behaviours : first.UpToKinds casting second)
    (worlds : world.UpToKinds casting other)
    (step : Int) (value : ν) {entry : Entry κ} {twin : Entry κ'}
    (entries : entry.UpToKinds casting twin) {info also : StepInfo} (infos : info.UpToKinds also) :
    Replied casting (apply first world run step value entry info)
      (apply second other run step value twin also) := by
  have observes := Casting.observes entries.twins
  have told := worlds.record (.applied run.queue step entry twin info also value entries infos)
  cases observer : entry.isObserver with
  | true =>
    rw [applyObserver first world run step value info observer,
      applyObserver second other run step value also (observes.trans observer)]
    exact ⟨told, .enter _ _ (.intro _ _ _ _ _ (.observing run step info also value infos)
      (behaviours.watch entries.twins observer run.queue (.ok value)))⟩
  | false =>
    obtain ⟨frame, applied, joined⟩ := applyWork first world run step value info observer
    obtain ⟨mate, likewise, same⟩ :=
      applyWork second other run step value also (observes.trans observer)
    rw [applied, likewise]
    refine ⟨told, .enter _ _ ?_⟩
    rw [joined, same]
    exact .intro _ _ _ _ _ (.awaiting run step info also infos)
      (behaviours.work entries.twins observer run.queue value)

theorem proceedUpToKinds (behaviours : first.UpToKinds casting second)
    (worlds : world.UpToKinds casting other)
    (value : ν) : Replied casting (proceed first world run value)
    (proceed second other run value) := by
  rcases (worlds.agenda run.queue).activates run.index with
    ⟨ended, also⟩ | ⟨entry, next, twin, later, taken, picked, entries, agendas⟩
  · have finished := completeRunUpToKinds run behaviours worlds (.completed value)
    simpa only [proceed, ended, also] using finished
  · have infos := entries.info run.index
    rw [proceedActivates first run value taken, proceedActivates second run value picked]
    exact ⟨((worlds.setAgenda run.queue agendas).record
      (.activated run.queue entry twin _ _ entries infos)
        ).record (.asked run.queue _ _ (.startStep run.id _ _ infos)),
      .enter _ _ (.intro _ _ _ _ _ (.startingStep run value entry twin _ _ entries infos)
        ((behaviours.recorder run.queue).startStep run.id infos))⟩

theorem deliveredUpToKinds (behaviours : first.UpToKinds casting second)
    (worlds : world.UpToKinds casting other)
    {delivery news : Delivery} (deliveries : delivery.UpToKinds news) (dropped : Nat) :
    Replied casting (delivered first world run delivery dropped)
      (delivered second other run news dropped) := by
  have told := worlds.record (.dropped run.queue dropped)
  cases deliveries with
  | refused error mate errors =>
    exact completeRunUpToKinds run behaviours told (.failed error mate (dropped + 1) errors)
  | failed error mate step info also errors infos =>
    exact completeStepUpToKinds run behaviours told step infos (.failed error mate errors)
      (.failed error mate dropped errors)

theorem deliverUpToKinds (behaviours : first.UpToKinds casting second)
    (worlds : world.UpToKinds casting other)
    {delivery news : Delivery} (deliveries : delivery.UpToKinds news) {rest : List (Entry κ)}
    {others : List (Entry κ')} (lines : casting.Lines rest others) (index : UInt32)
    (dropped : Nat) :
    Replied casting (deliver first world run delivery rest index dropped)
      (deliver second other run news others index dropped) := by
  induction lines generalizing index dropped with
  | nil => exact deliveredUpToKinds run behaviours worlds deliveries dropped
  | @cons entry twin rest others entries lines ih =>
    unfold deliver
    rw [Casting.observes entries.twins]
    split
    · next observer =>
      have labels := Casting.relabels entries.twins index
      exact ⟨worlds.record (.notified run.queue entry twin _ _ _ _ entries labels
          deliveries.errors),
        .enter _ _ (.intro _ _ _ _ _
          (.delivering run delivery news _ _ rest others _ dropped deliveries labels lines)
          (behaviours.watch entries.twins observer run.queue (.error _ _ deliveries.errors)))⟩
    · exact ih (index + 1) (dropped + 1)

theorem withdrawUpToKinds (behaviours : first.UpToKinds casting second)
    (worlds : world.UpToKinds casting other)
    {delivery news : Delivery} (deliveries : delivery.UpToKinds news) (index : UInt32) :
    Replied casting (withdraw first world run delivery index)
      (withdraw second other run news index) := by
  have agendas := worlds.agenda run.queue
  have lines := agendas.settle.pipeline
  have told := (worlds.setAgenda run.queue agendas.emptied).record (.withdrawn run.queue _ _ lines)
  exact deliverUpToKinds run behaviours told deliveries lines index 0

theorem settleUpToKinds (behaviours : first.UpToKinds casting second)
    (worlds : world.UpToKinds casting other)
    (step : Int) {info also : StepInfo} (infos : info.UpToKinds also)
    {result answer : Except RunError ν}
    (results : Results result answer) :
    Replied casting (settle first world run step info result)
      (settle second other run step also answer) := by
  have spliced : (other.agenda run.queue).found.size = (world.agenda run.queue).found.size := by
    have lengths := (worlds.agenda run.queue).buffer.length_eq
    rw [Agenda.buffer, Agenda.buffer, Lane.lengthOfList, Lane.lengthOfList] at lengths
    exact lengths.symm
  have settled := (worlds.settle run.queue).record
    (.settled run.queue info also (world.agenda run.queue).found.size result answer infos results)
  unfold settle
  rw [spliced]
  cases results with
  | ok value =>
    exact completeStepUpToKinds _ behaviours settled step infos (.completed _) (.completed value)
  | error error mate errors =>
    exact withdrawUpToKinds _ behaviours settled (.failed error mate step info also errors infos) _

theorem refuseUpToKinds (behaviours : first.UpToKinds casting second)
    (worlds : world.UpToKinds casting other)
    {info also : StepInfo} (infos : info.UpToKinds also) {error mate : RunError}
    (errors : error.UpToKinds mate) :
    Replied casting (refuse first world run info error) (refuse second other run also mate) :=
  withdrawUpToKinds run behaviours ((worlds.settle run.queue).record
    (.refused run.queue info also error mate infos errors)) (.refused error mate errors) _

theorem stepCompletedUpToKinds (behaviours : first.UpToKinds casting second)
    (worlds : world.UpToKinds casting other) {verdict mate : Verdict ν}
    (verdicts : verdict.UpToKinds mate) :
    Replied casting (stepCompleted first world run verdict)
      (stepCompleted second other run mate) := by
  cases verdicts with
  | completed value => exact proceedUpToKinds run behaviours worlds value
  | failed error mate dropped errors =>
    exact completeRunUpToKinds run behaviours worlds (.failed error mate dropped errors)

theorem runCompletedUpToKinds (worlds : world.UpToKinds casting other) {verdict mate : Verdict ν}
    (verdicts : verdict.UpToKinds mate) :
    Replied casting (runCompleted world run verdict) (runCompleted other run mate) := by
  cases verdicts with
  | completed value =>
    exact ⟨worlds.record (.completed run.queue run.index value), .returned _ _ (.ok value)⟩
  | failed error mate dropped errors =>
    exact ⟨worlds.record (.failed run.queue error mate dropped errors),
      .returned _ _ (.error error mate errors)⟩

theorem concludeUpToKinds (behaviours : first.UpToKinds casting second)
    (worlds : world.UpToKinds casting other)
    {stage : Stage κ ν} {mate : Stage κ' ν} {meets : stage.Answer ε → mate.Answer ε → Prop}
    (stages : stage.UpToKinds casting mate meets) {early : Ending (stage.Answer ε)}
    {late : Ending (mate.Answer ε)} (ends : early.UpToKinds meets late) :
    Replied casting (conclude first world stage early) (conclude second other mate late) := by
  cases stages with
  | outside =>
    cases ends with
    | returned | failed => exact ⟨worlds, .left⟩
    | panicked payload => exact ⟨worlds, .unwound payload⟩
  | startingRun queue value =>
    cases ends with
    | returned id also meet =>
      cases meet
      have queued : (other.agenda queue).len = (world.agenda queue).len := by
        rw [← Agenda.lengthOfPending, ← Agenda.lengthOfPending]
        exact (worlds.agenda queue).pending.length_eq.symm
      have started := worlds.record (.started queue id (world.agenda queue).len)
      rw [conclude, conclude, queued]
      exact proceedUpToKinds _ behaviours started value
    | failed failure mate failures =>
      exact ⟨worlds, .returned _ _ (.error _ _ (.recorder failure mate failures))⟩
    | panicked payload => exact ⟨worlds, .unwound payload⟩
  | startingStep run value entry twin info also entries infos =>
    cases ends with
    | returned step id meet =>
      cases meet
      exact applyUpToKinds run behaviours worlds step value entries infos
    | failed failure mate failures =>
      exact refuseUpToKinds run behaviours worlds infos (.recorder failure mate failures)
    | panicked payload => exact ⟨worlds, .unwound payload⟩
  | awaiting run step info also infos =>
    exact settleUpToKinds run behaviours worlds step infos (ends.results infos.label)
  | observing run step info also value infos =>
    cases ends with
    | returned | failed => exact settleUpToKinds run behaviours worlds step infos (.ok value)
    | panicked payload =>
      have noted := worlds.record (.observerPanicked info.label also.label payload infos.label)
      exact settleUpToKinds run behaviours noted step infos (.ok value)
  | delivering run delivery news label name rest others index dropped deliveries labels lines =>
    cases ends with
    | returned | failed =>
      exact deliverUpToKinds run behaviours worlds deliveries lines index dropped
    | panicked payload =>
      have noted := worlds.record (.observerPanicked label name payload labels)
      exact deliverUpToKinds run behaviours noted deliveries lines index dropped
  | completingStep run info also verdict mate infos verdicts =>
    cases ends with
    | returned => exact stepCompletedUpToKinds run behaviours worlds verdicts
    | failed failure twin failures =>
      have noted := worlds.record (.stepUnrecorded run.queue info also failure twin infos failures)
      exact stepCompletedUpToKinds run behaviours noted verdicts
    | panicked payload => exact ⟨worlds, .unwound payload⟩
  | completingRun run verdict mate verdicts =>
    cases ends with
    | returned => exact runCompletedUpToKinds run worlds verdicts
    | failed failure twin failures =>
      exact runCompletedUpToKinds run
        (worlds.record (.runUnrecorded run.queue failure twin failures))
        verdicts
    | panicked payload => exact ⟨worlds, .unwound payload⟩

end Scheduler

end Sequencer
